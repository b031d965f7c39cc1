import Jet3.Definition.TableWriter
import Jet3.Library.Lookup

/-!
# Reading back the columns of a definition

The writer derives where a row stores a column from the columns before it, and the reader checks
what it reads against the same columns. Both meet at `placement`, which says where a column is
stored.

* `resolveColumn_ok` says what the writer derives, `decodeRecord_written` what the reader makes of
  it;
* `decodeColumns_written` reads back the records and names of all columns.
-/

namespace Jet3

open Outcome Reader

/-! ## Placement -/

/-- The bytes a column takes of the fixed area: none where it is variable or a Boolean. -/
def ColumnSpec.fixedWidth (column : ColumnSpec) : ℕ :=
  if column.storage = .fixed ∧ column.physicalType ≠ .boolean then column.size else 0

/-- The bytes of the fixed columns. -/
def fixedArea (columns : List ColumnSpec) : ℕ :=
  (columns.map ColumnSpec.fixedWidth).sum

/-- The count of the variable columns. -/
def variableColumns (columns : List ColumnSpec) : ℕ :=
  columns.countP fun column => column.storage = .variable

/-- Where a row stores a column that follows the columns `earlier`. -/
def placement (earlier : List ColumnSpec) (column : ColumnSpec) : ColumnStorageClass :=
  match column.storage with
  | .variable => .variable (variableColumns earlier)
  | .fixed => .fixed (if column.physicalType = .boolean then 0 else fixedArea earlier)

/-- The cursor the columns `earlier` leave. -/
def cursorAfter (earlier : List ColumnSpec) : ColumnCursor :=
  { nextFixedOffset := fixedArea earlier, variablesSeen := variableColumns earlier }

theorem variableColumns_le (columns : List ColumnSpec) : variableColumns columns ≤ columns.length :=
  List.countP_le_length

@[simp]
theorem fixedArea_append_singleton (earlier : List ColumnSpec) (column : ColumnSpec) :
    fixedArea (earlier ++ [column]) = fixedArea earlier + column.fixedWidth := by
  simp [fixedArea]

theorem variableColumns_append_singleton (earlier : List ColumnSpec) (column : ColumnSpec) :
    variableColumns (earlier ++ [column]) =
      variableColumns earlier + if column.storage = .variable then 1 else 0 := by
  simp [variableColumns, List.countP_append, List.countP_singleton]

/-- The placement and the class byte the writer gives a column that follows `earlier`. -/
structure ResolvesTo (kind : TableDefinitionKind) (earlier : List ColumnSpec) (column : ColumnSpec)
    (resolved : ResolvedColumn) : Prop where
  storage_eq : resolved.storage = placement earlier column
  counter_eq : resolved.variableCounter = variableColumns earlier
  class_mem : resolved.rawClass ∈ kind.columnClasses
  class_variable : column.storage = .variable → resolved.rawClass &&& storageClassMask =
    variableClass
  class_fixed : column.storage = .fixed → resolved.rawClass &&& storageClassMask = fixedClass ∨
    resolved.rawClass &&& storageClassMask = autoIncrementClass
  autoIncrement_iff : resolved.rawClass = autoIncrementClass ↔ column.columnType = .autoIncrement
  offset_lt : column.storage = .fixed → column.physicalType ≠ .boolean →
    fixedArea earlier + column.size < 2 ^ 16

/-- The class byte of a variable column is one the decoder accepts. -/
theorem variableColumnClass_ok {kind : TableDefinitionKind}
    {systemClass : Option SystemColumnClassSpec} {physicalType : ColumnPhysicalType} {raw : UInt8}
    (h : variableColumnClass kind systemClass physicalType = some raw) :
    raw ∈ kind.columnClasses ∧ raw &&& storageClassMask = variableClass ∧ raw ≠
      autoIncrementClass := by
  revert h
  rcases kind with _ | _
  · rintro ⟨⟩
    decide
  · rcases systemClass with _ | _ | _ | _
    · rintro ⟨⟩
    · rintro ⟨⟩
      decide
    · rintro ⟨⟩
    · simp only [variableColumnClass, Option.ite_none_right_eq_some, Option.some.injEq]
      rintro ⟨-, rfl⟩
      decide

/-- The class byte of a fixed column is one the decoder accepts. -/
theorem fixedColumnClass_ok {kind : TableDefinitionKind}
    {systemClass : Option SystemColumnClassSpec} {autoIncrement : Bool} {raw : UInt8}
    (h : fixedColumnClass kind systemClass autoIncrement = some raw) :
    raw ∈ kind.columnClasses ∧
      (raw &&& storageClassMask = fixedClass ∨ raw &&& storageClassMask = autoIncrementClass) ∧
      (raw = autoIncrementClass ↔ kind = .user ∧ autoIncrement = true) := by
  revert h
  rcases kind with _ | _
  · rcases autoIncrement with _ | _ <;> rintro ⟨⟩ <;> decide
  · rcases systemClass with _ | _ | _ | _ <;> rintro ⟨⟩
    cases autoIncrement <;> decide

/-- What the writer derives for a column from the columns before it. -/
theorem resolveColumn_ok {ordinal : ℕ} {column : ColumnSpec} {kind : TableDefinitionKind}
    {systemClass : Option SystemColumnClassSpec} {earlier : List ColumnSpec}
    {resolved : ResolvedColumn} {cursor : ColumnCursor}
    (h : resolveColumn ordinal column kind systemClass (cursorAfter earlier) =
      .ok (resolved, cursor)) :
    ResolvesTo kind earlier column resolved ∧ cursor = cursorAfter (earlier ++ [column]) := by
  simp only [resolveColumn, bind_ok_iff, exists_unit, refuseIf_ok_iff, decide_eq_true_eq] at h
  obtain ⟨hsystem, h⟩ := h
  rcases hstorage : column.storage with _ | _
  · -- A fixed column: a Boolean takes no bytes of the fixed area.
    have hvariable : column.storage ≠ .variable := by rw [hstorage]; decide
    have hauto : kind = .user ∧ column.columnType = .autoIncrement ↔
        column.columnType = .autoIncrement := by
      rcases kind with _ | _
      · simp
      · simpa using hsystem
    rw [hstorage] at h
    dsimp only at h
    split at h
    next hboolean =>
      simp only [bind_ok_iff, okOr_ok_iff, pure_ok_iff, Prod.mk.injEq] at h
      obtain ⟨raw, hraw, rfl, rfl⟩ := h
      obtain ⟨hmem, hmask, hiff⟩ := fixedColumnClass_ok hraw
      have hwidth : column.fixedWidth = 0 := by simp [ColumnSpec.fixedWidth, hboolean]
      refine ⟨⟨?_, rfl, hmem, fun hv => absurd hv hvariable, fun _ => hmask, ?_, ?_⟩, ?_⟩
      · simp [placement, hstorage, hboolean]
      · simpa [hauto] using hiff
      · exact fun _ hne => absurd hboolean hne
      · simp [cursorAfter, hwidth, variableColumns_append_singleton, hvariable]
    next hboolean =>
      simp only [bind_ok_iff, exists_unit, refuseIf_ok_iff, not_not, okOr_ok_iff, pure_ok_iff,
        Prod.mk.injEq] at h
      obtain ⟨hlt, raw, hraw, rfl, rfl⟩ := h
      obtain ⟨hmem, hmask, hiff⟩ := fixedColumnClass_ok hraw
      have hwidth : column.fixedWidth = column.size := by
        simp [ColumnSpec.fixedWidth, hstorage, hboolean]
      refine ⟨⟨?_, rfl, hmem, fun hv => absurd hv hvariable, fun _ => hmask, ?_, ?_⟩, ?_⟩
      · simp [placement, hstorage, hboolean, cursorAfter]
      · simpa [hauto] using hiff
      · exact fun _ _ => hlt
      · simp [cursorAfter, hwidth, variableColumns_append_singleton, hvariable]
  · have hfixed : column.storage ≠ .fixed := by rw [hstorage]; decide
    have htype : column.columnType ≠ .autoIncrement := by
      intro heq
      rw [ColumnSpec.storage, heq] at hstorage
      cases hstorage
    rw [hstorage] at h
    simp only [bind_ok_iff, exists_unit, refuseIf_ok_iff, not_not, okOr_ok_iff, pure_ok_iff,
      Prod.mk.injEq] at h
    obtain ⟨-, raw, hraw, rfl, rfl⟩ := h
    obtain ⟨hmem, hmask, hne⟩ := variableColumnClass_ok hraw
    have hwidth : column.fixedWidth = 0 := by simp [ColumnSpec.fixedWidth, hfixed]
    refine ⟨⟨?_, rfl, hmem, fun _ => hmask, fun hf => absurd hf hfixed, ?_, ?_⟩, ?_⟩
    · simp [placement, hstorage, cursorAfter]
    · exact ⟨fun heq => absurd heq hne, fun heq => absurd heq htype⟩
    · exact fun hf => absurd hf hfixed
    · simp [cursorAfter, hwidth, variableColumns_append_singleton, hstorage]

/-! ## Writing -/

/-- The record of a column and its number. -/
structure WrittenColumn (spec : TableDefinitionSpec) (encodingContext : Bytes 4)
    (entry : ColumnSpec × ℕ) (record : Bytes columnRecordLen) : Prop where
  written : ∃ resolved, ResolvesTo spec.kind (spec.columns.take entry.2) entry.1 resolved ∧
    record = writeColumnRecord entry.2 entry.1 resolved spec.kind encodingContext

/-- The records of all columns, each resolved behind the columns before it. -/
theorem writeColumns_ok {spec : TableDefinitionSpec} {encodingContext : Bytes 4}
    {records : List (Bytes columnRecordLen)} {cursor : ColumnCursor}
    (h : spec.columns.zipIdx.foldlM (writeColumn spec encodingContext)
      ([], { nextFixedOffset := 0, variablesSeen := 0 }) = .ok (records, cursor)) :
    List.Forall₂ (WrittenColumn spec encodingContext) spec.columns.zipIdx records := by
  refine (foldlM_ok_induction (fun done state =>
    state.2 = cursorAfter (done.map Prod.fst) ∧
      List.Forall₂ (WrittenColumn spec encodingContext) done state.1)
    ⟨rfl, .nil⟩ ?_ h).2
  rintro done entry rest ⟨records, cursor⟩ state' hsplit ⟨hcursor, hrecords⟩ hstep
  dsimp only at hcursor hrecords
  obtain ⟨hnumber, -, htake⟩ := Lookup.zipIdx_split hsplit
  simp only [writeColumn, bind_ok_iff, pure_ok_iff, Prod.exists, hcursor] at hstep
  obtain ⟨resolved, cursor', hresolve, rfl⟩ := hstep
  obtain ⟨hresolves, hcursor'⟩ := resolveColumn_ok hresolve
  refine ⟨by rw [List.map_append]; exact hcursor', List.rel_append hrecords (.cons ⟨?_⟩ .nil)⟩
  exact ⟨resolved, htake ▸ hresolves, rfl⟩

/-- The layout a definition admits counts its variable columns. -/
theorem validateColumnLayout_ok {columns : List ColumnSpec} {kind : TableDefinitionKind}
    {classes : List SystemColumnClassSpec} {count : ℕ}
    (h : validateColumnLayout columns kind classes = .ok count) :
    columns.length ≤ maxColumnCount ∧ count = variableColumns columns ∧
      ∀ entry ∈ columns.zipIdx, entry.1.name ≠ [] ∧ entry.1.name.length ≤ maxNameLen ∧
        entry.1.name ∉ (columns.take entry.2).map ColumnSpec.name := by
  simp only [validateColumnLayout, bind_ok_iff, exists_unit, refuseIf_ok_iff, not_lt, pure_ok_iff]
    at h
  obtain ⟨hlen, cursor, hloop, -, rfl⟩ := h
  have key : cursor = cursorAfter (columns.zipIdx.map Prod.fst) ∧
      ∀ entry ∈ columns.zipIdx, entry.1.name ≠ [] ∧ entry.1.name.length ≤ maxNameLen ∧
        entry.1.name ∉ (columns.take entry.2).map ColumnSpec.name := by
    refine foldlM_ok_induction (fun done cursor => cursor = cursorAfter (done.map Prod.fst) ∧
      ∀ entry ∈ done, entry.1.name ≠ [] ∧ entry.1.name.length ≤ maxNameLen ∧
        entry.1.name ∉ (columns.take entry.2).map ColumnSpec.name) ⟨rfl, by simp⟩ ?_ hloop
    rintro done entry rest cursor cursor' hsplit ⟨hcursor, hnames⟩ hstep
    simp only [validateColumn, validateName, bind_ok_iff, exists_unit, refuseIf_ok_iff, not_lt,
      pure_ok_iff, Prod.exists, hcursor] at hstep
    obtain ⟨hname, resolved, next, hresolve, rfl⟩ := hstep
    obtain ⟨-, hcursor'⟩ := resolveColumn_ok hresolve
    refine ⟨by rw [List.map_append]; exact hcursor', ?_⟩
    intro other hother
    rcases List.mem_append.mp hother with hold | hnew
    · exact hnames other hold
    · rw [List.mem_singleton.mp hnew]
      exact hname
  rw [List.zipIdx_map_fst] at key
  exact ⟨hlen, by rw [key.1]; rfl, key.2⟩

/-! ## The fields of a record -/

section Fields

variable (ordinal : ℕ) (column : ColumnSpec) (resolved : ResolvedColumn)
  (kind : TableDefinitionKind)
  (encodingContext : Bytes 4)

theorem byteAt_writeColumnRecord_type :
    byteAt (writeColumnRecord ordinal column resolved kind encodingContext).val 0 =
      column.physicalType.raw :=
  rfl

theorem leAt_writeColumnRecord_ordinal (h : ordinal < 2 ^ 16) :
    leAt (writeColumnRecord ordinal column resolved kind encodingContext).val 1 2 = ordinal := by
  show leValue (leBytes 2 ordinal) = ordinal
  exact leValue_leBytes_of_lt h

theorem leAt_writeColumnRecord_counter (h : resolved.variableCounter < 2 ^ 16) :
    leAt (writeColumnRecord ordinal column resolved kind encodingContext).val 3 2 =
      resolved.variableCounter := by
  show leValue (leBytes 2 resolved.variableCounter) = resolved.variableCounter
  exact leValue_leBytes_of_lt h

theorem leAt_writeColumnRecord_position (hsystem : kind = .system) :
    leAt (writeColumnRecord ordinal column resolved kind encodingContext).val 5 2 = 0 := by
  subst hsystem
  show leValue (leBytes 2 0) = 0
  exact leValue_leBytes_of_lt (by decide)

theorem leAt_writeColumnRecord_constant :
    leAt (writeColumnRecord ordinal column resolved kind encodingContext).val 7 2 =
      kind.columnConstant := by
  show leValue (leBytes 2 kind.columnConstant) = kind.columnConstant
  exact leValue_leBytes_of_lt (by cases kind <;> decide)

theorem writeColumnRecord_context :
    ((writeColumnRecord ordinal column resolved kind encodingContext).val.drop 9).take 4 =
      encodingContext.val := by
  rcases encodingContext with ⟨context, hlen⟩
  obtain ⟨a, b, c, d, rfl⟩ := List.length_eq_four.mp hlen
  rfl

theorem byteAt_writeColumnRecord_class :
    byteAt (writeColumnRecord ordinal column resolved kind encodingContext).val 13 =
      resolved.rawClass := by
  rcases encodingContext with ⟨context, hlen⟩
  obtain ⟨a, b, c, d, rfl⟩ := List.length_eq_four.mp hlen
  rfl

theorem leAt_writeColumnRecord_offset (h : resolved.storage.storedOffset < 2 ^ 16) :
    leAt (writeColumnRecord ordinal column resolved kind encodingContext).val 14 2 =
      resolved.storage.storedOffset := by
  rcases encodingContext with ⟨context, hlen⟩
  obtain ⟨a, b, c, d, rfl⟩ := List.length_eq_four.mp hlen
  show leValue (leBytes 2 resolved.storage.storedOffset) = resolved.storage.storedOffset
  exact leValue_leBytes_of_lt h

theorem leAt_writeColumnRecord_size :
    leAt (writeColumnRecord ordinal column resolved kind encodingContext).val 16 2 =
      column.size := by
  rcases encodingContext with ⟨context, hlen⟩
  obtain ⟨a, b, c, d, rfl⟩ := List.length_eq_four.mp hlen
  show leValue (leBytes 2 column.size) = column.size
  exact leValue_leBytes_of_lt (column.columnType.size_lt.trans (by decide))

end Fields

/-! ## Reading a record -/

/-- The counts the columns of a specification are read against. -/
def TableDefinitionSpec.columnContext (spec : TableDefinitionSpec) : ColumnContext :=
  { kind := spec.kind, columnCount := spec.columns.length, storageCount := spec.columns.length
    variableCount := variableColumns spec.columns }

/-- Every stored column of a written definition has a record. -/
theorem TableDefinitionSpec.sparse_columnContext (spec : TableDefinitionSpec) :
    spec.columnContext.sparse = false := by
  simp [ColumnContext.sparse, columnContext]

/-- A record that describes the column `entry.1`, the `entry.2`-th of `columns`. -/
structure DescribesColumn (columns : List ColumnSpec) (entry : ColumnSpec × ℕ) (raw : RawColumn) :
    Prop where
  ordinal_eq : raw.ordinal = entry.2
  storageOrdinal_eq : raw.storageOrdinal = entry.2
  physicalType_eq : raw.physicalType = entry.1.physicalType
  size_eq : raw.size = entry.1.size
  storage_eq : raw.storage = placement (columns.take entry.2) entry.1
  autoIncrement_iff : raw.autoIncrement = true ↔ entry.1.columnType = .autoIncrement

/-- What the reader remembers after the columns `done`. -/
structure ScanAfter (columns : List ColumnSpec) (done : List (ColumnSpec × ℕ)) (scan : ColumnScan) :
    Prop where
  variablesSeen_eq : scan.variablesSeen = variableColumns (done.map Prod.fst)
  nextFixedOffset_eq : scan.nextFixedOffset = fixedArea (done.map Prod.fst)
  previous_lt : ∀ previous ∈ scan.previousStorage, previous < done.length
  describes : List.Forall₂ (DescribesColumn columns) done scan.columns

/-- A stored type is decoded as itself. -/
theorem decodeType_raw (ordinal : ℕ) (physicalType : ColumnPhysicalType) :
    decodeType ordinal physicalType.raw = .ok physicalType := by
  cases physicalType <;> rfl

section Step

variable {spec : TableDefinitionSpec} {earlier : List ColumnSpec} {column : ColumnSpec}
  {resolved : ResolvedColumn} {scan : ColumnScan}

/-- The scan a column that follows `earlier` leaves. -/
def ColumnScan.after (scan : ColumnScan) (columns : List ColumnSpec) : ColumnScan :=
  { scan with variablesSeen := variableColumns columns, nextFixedOffset := fixedArea columns }

/-- The placement the reader finds is the one the writer derived. -/
theorem decodeStorage_written {kind : TableDefinitionKind} (fields : RecordFields)
    (hresolved : ResolvesTo kind earlier column resolved)
    (hvariables : scan.variablesSeen = variableColumns earlier)
    (hoffset : scan.nextFixedOffset = fixedArea earlier)
    (hcount : variableColumns (earlier ++ [column]) ≤ variableColumns spec.columns)
    (htype : fields.physicalType = column.physicalType) (hsize : fields.size = column.size)
    (hcounter : fields.variableCounter = resolved.variableCounter)
    (hclass : fields.rawClass = resolved.rawClass)
    (hstored : leAt fields.record.val 14 2 = resolved.storage.storedOffset) :
    decodeStorage spec.columnContext scan fields =
      .ok (placement earlier column, scan.after (earlier ++ [column])) := by
  have hsparse := spec.sparse_columnContext
  rcases hstorage : column.storage with _ | _
  · -- a fixed column: its class is that of a value or of a counter
    have hmask : fields.rawClass &&& storageClassMask ≠ variableClass ∧
        (fields.rawClass &&& storageClassMask = fixedClass ∨
          fields.rawClass &&& storageClassMask = autoIncrementClass) := by
      rw [hclass]
      rcases hresolved.class_fixed hstorage with h | h <;> rw [h] <;> decide
    have hnever : ¬column.physicalType.neverFixed = true :=
      Bool.not_eq_true _ ▸ ColumnType.neverFixed_of_storage hstorage
    have hauto : ¬(fields.rawClass = autoIncrementClass ∧ column.physicalType ≠ .long) := by
      rintro ⟨hraw, hne⟩
      rw [hclass, hresolved.autoIncrement_iff] at hraw
      rw [ColumnSpec.physicalType, hraw] at hne
      exact hne rfl
    have hplace : placement earlier column = .fixed resolved.storage.storedOffset := by
      rw [hresolved.storage_eq, placement, hstorage]
      rfl
    rw [decodeStorage, if_neg hmask.1, if_pos hmask.2, decodeFixed]
    simp only [bind_ok_iff, exists_unit, refuseIf_ok_iff, hstored, htype]
    refine ⟨hauto, hnever, ?_⟩
    by_cases hboolean : column.physicalType = .boolean
    · -- a boolean stands in the null map and has no bytes of its own
      have hwidth : column.fixedWidth = 0 := by simp [ColumnSpec.fixedWidth, hboolean]
      rw [if_pos hboolean, pure_ok_iff, Prod.mk.injEq]
      refine ⟨hplace.symm, ?_⟩
      rw [ColumnScan.after, fixedArea_append_singleton, hwidth, variableColumns_append_singleton,
        hstorage, Nat.add_zero, ← hoffset]
      simp [← hvariables]
    · have hwidth : column.fixedWidth = column.size := by
        simp [ColumnSpec.fixedWidth, hstorage, hboolean]
      -- other fixed columns stand one behind the other, which the scan checks
      have harea : resolved.storage.storedOffset = fixedArea earlier := by
        rw [hresolved.storage_eq, placement, hstorage]
        simp [ColumnStorageClass.storedOffset, hboolean]
      have hlt := hresolved.offset_lt hstorage hboolean
      rw [if_neg hboolean]
      simp only [checkFixedRange, bind_ok_iff, exists_unit, refuseIf_ok_iff, hsparse, pure_ok_iff,
        harea, hoffset, hsize, Bool.false_eq_true, false_and, not_false_eq_true, ne_eq,
        not_true_eq_false, and_false, hlt, true_and, exists_eq_left', Prod.mk.injEq]
      refine ⟨by rw [hplace, harea], ?_⟩
      rw [ColumnScan.after, fixedArea_append_singleton, hwidth, variableColumns_append_singleton,
        hstorage, ← hvariables]
      simp
  · -- a variable column: its counter is the count of those before it
    have hmask : fields.rawClass &&& storageClassMask = variableClass := by
      rw [hclass]
      exact hresolved.class_variable hstorage
    have hisVariable : fields.physicalType.isVariable = true := by
      rw [htype]
      exact ColumnType.isVariable_of_storage hstorage
    have hwidth : column.fixedWidth = 0 := by simp [ColumnSpec.fixedWidth, hstorage]
    rw [variableColumns_append_singleton, hstorage] at hcount
    have hlt : variableColumns earlier < spec.columnContext.variableCount := hcount
    rw [decodeStorage, if_pos hmask, decodeVariable]
    simp only [bind_ok_iff, exists_unit, refuseIf_ok_iff, hisVariable, hcounter,
      hresolved.counter_eq, hvariables, not_true_eq_false, not_false_eq_true, true_and, pure_ok_iff,
      Prod.mk.injEq]
    refine ⟨by omega, ?_, ?_⟩
    · rw [placement, hstorage]
    · rw [ColumnScan.after, fixedArea_append_singleton, hwidth, variableColumns_append_singleton,
        hstorage, ← hoffset]
      simp

/-- The record of a column is read back as this column. -/
theorem decodeRecord_written {encodingContext : Bytes 4} {done rest : List (ColumnSpec × ℕ)}
    {entry : ColumnSpec × ℕ} {record : Bytes columnRecordLen}
    (hcontext : encodingContext.val ∈ encodingContexts)
    (hmax : spec.columns.length ≤ maxColumnCount)
    (hsplit : spec.columns.zipIdx = done ++ entry :: rest)
    (hrecord : WrittenColumn spec encodingContext entry record)
    (hscan : ScanAfter spec.columns done scan) :
    ∃ scan', decodeRecord spec.columnContext entry.2 record scan = .ok scan' ∧
      ScanAfter spec.columns (done ++ [entry]) scan' := by
  obtain ⟨hnumber, hget, htake⟩ := Lookup.zipIdx_split hsplit
  obtain ⟨resolved, hresolved, rfl⟩ := hrecord.written
  have hlt : entry.2 < spec.columns.length := (List.getElem?_eq_some_iff.mp hget).1
  have hordinal : entry.2 < 2 ^ 16 := by
    have : maxColumnCount < 2 ^ 16 := by decide
    omega
  -- The variable columns so far are among the columns so far.
  have hseen : variableColumns (done.map Prod.fst) ≤ entry.2 := by
    rw [hnumber, ← List.length_map Prod.fst]
    exact variableColumns_le _
  rw [htake] at hresolved
  have hcounter := hresolved.counter_eq
  have hnext : variableColumns (done.map Prod.fst ++ [entry.1]) ≤ variableColumns spec.columns := by
    have hcolumns : spec.columns = done.map Prod.fst ++ [entry.1] ++ rest.map Prod.fst := by
      have := congrArg (List.map Prod.fst) hsplit
      rw [List.zipIdx_map_fst] at this
      simpa using this
    rw [hcolumns]
    unfold variableColumns
    rw [@List.countP_append _ _ (done.map Prod.fst ++ [entry.1])]
    exact Nat.le_add_right _ _
  have hstored : resolved.storage.storedOffset < 2 ^ 16 := by
    rw [hresolved.storage_eq, placement]
    rcases hstorage : entry.1.storage with _ | _
    · by_cases hboolean : entry.1.physicalType = .boolean
      · simp [ColumnStorageClass.storedOffset, hboolean]
      · have := hresolved.offset_lt hstorage hboolean
        simp only [ColumnStorageClass.storedOffset, hboolean, if_false]
        omega
    · exact Nat.two_pow_pos 16
  have hstorage := decodeStorage_written
    ⟨entry.2, writeColumnRecord entry.2 entry.1 resolved spec.kind encodingContext,
      entry.1.physicalType, entry.1.size, resolved.variableCounter, resolved.rawClass⟩
    hresolved hscan.variablesSeen_eq hscan.nextFixedOffset_eq hnext rfl rfl rfl rfl
      (leAt_writeColumnRecord_offset _ _ _ _ _ hstored)
  have horder : checkOrder spec.columnContext scan entry.2 entry.2 resolved.variableCounter
      (leAt (writeColumnRecord entry.2 entry.1 resolved spec.kind encodingContext).val 5 2) =
        .ok () := by
    simp only [checkOrder, bind_ok_iff, exists_unit, refuseIf_ok_iff, not_or]
    refine ⟨⟨Nat.not_le.mpr hlt, ?_, ?_⟩, ?_, ?_, ?_, ?_⟩
    · simp only [Option.any_eq_true, not_exists, not_and, decide_eq_true_eq, not_le]
      exact fun previous hprevious => hnumber ▸ hscan.previous_lt previous hprevious
    · rintro ⟨hsystem, hposition⟩
      exact hposition (leAt_writeColumnRecord_position _ _ _ _ _ hsystem)
    · rw [hscan.variablesSeen_eq, hcounter]
      exact lt_irrefl _
    · rw [hcounter, gt_iff_lt, not_lt]
      exact (Nat.le_add_right _ _).trans
        ((variableColumns_append_singleton _ _).symm.le.trans hnext)
    · rw [hcounter]
      exact Nat.not_lt.mpr hseen
    · rintro ⟨-, hne⟩
      exact hne (hcounter.trans hscan.variablesSeen_eq.symm)
  have hsize : validateSize entry.2 entry.1.physicalType entry.1.size = .ok () := by
    rw [validateSize, refuseIf_ok_iff, not_not]
    exact entry.1.columnType.validSize
  refine ⟨{ scan.after (done.map Prod.fst ++ [entry.1]) with
    columns := scan.columns ++ [{
      ordinal := entry.2, physicalType := entry.1.physicalType
      storage := placement (done.map Prod.fst) entry.1, size := entry.1.size
      autoIncrement := resolved.rawClass = autoIncrementClass
      rawVariableCounter := resolved.variableCounter, sourcedConstant := spec.kind.columnConstant
      rawEncodingContext := encodingContext.val, rawClassFlags := resolved.rawClass
      rawRecord := writeColumnRecord entry.2 entry.1 resolved spec.kind encodingContext }]
    previousStorage := some entry.2 }, ?_, ?_⟩
  · have hcounter16 : resolved.variableCounter < 2 ^ 16 := by omega
    simp only [decodeRecord, byteAt_writeColumnRecord_type, byteAt_writeColumnRecord_class,
      leAt_writeColumnRecord_ordinal _ _ _ _ _ hordinal,
      leAt_writeColumnRecord_counter _ _ _ _ _ hcounter16, leAt_writeColumnRecord_constant,
      leAt_writeColumnRecord_size, writeColumnRecord_context, horder, decodeType_raw, hsize,
      hstorage, bind_ok_iff, exists_unit, refuseIf_ok_iff, pure_ok_iff, Except.ok.injEq,
      exists_eq_left', Prod.exists, Prod.mk.injEq, true_and]
    refine ⟨fun hne => hne rfl, not_not.mpr hcontext, not_not.mpr hresolved.class_mem, ?_⟩
    exact ⟨_, _, ⟨rfl, rfl⟩, rfl⟩
  · constructor
    · rw [List.map_append]
      rfl
    · rw [List.map_append]
      rfl
    · rintro previous hprevious
      have heq : entry.2 = previous := Option.some.inj hprevious
      rw [← heq, hnumber, List.length_append]
      exact Nat.lt_succ_self _
    · refine List.rel_append hscan.describes (.cons ⟨rfl, ?_, rfl, rfl, ?_, ?_⟩ .nil)
      · exact leAt_writeColumnRecord_ordinal _ _ _ _ _ hordinal
      · rw [htake]
      · exact decide_eq_true_iff.trans hresolved.autoIncrement_iff

end Step

/-! ## Reading all columns -/

/-- A name the writer admits for one of the columns. -/
def AdmittedName (columns : List ColumnSpec) (entry : ColumnSpec × ℕ) : Prop :=
  entry.1.name ≠ [] ∧ entry.1.name.length ≤ maxNameLen ∧
    entry.1.name ∉ (columns.take entry.2).map ColumnSpec.name

/-- The decoder reads the records back, one after the other. -/
theorem decodeRecords_written {spec : TableDefinitionSpec} {encodingContext : Bytes 4}
    {records : List (Bytes columnRecordLen)} (total : ℕ) (tail : List UInt8)
    (hcontext : encodingContext.val ∈ encodingContexts)
    (hmax : spec.columns.length ≤ maxColumnCount)
    (hrecords : List.Forall₂ (WrittenColumn spec encodingContext) spec.columns.zipIdx records) :
    ∃ scan, (List.range spec.columns.length).foldlM (decodeNextRecord spec.columnContext total)
        ({ columns := [], variablesSeen := 0, nextFixedOffset := 0, previousStorage := none },
          records.flatMap Subtype.val ++ tail) = .ok (scan, tail) ∧
      ScanAfter spec.columns spec.columns.zipIdx scan := by
  obtain ⟨hlen, hzip⟩ := List.forall₂_iff_zip.mp hrecords
  let items := spec.columns.zipIdx.zip records
  have hfst : items.map Prod.fst = spec.columns.zipIdx := List.map_fst_zip hlen.le
  have hsnd : items.map Prod.snd = records := List.map_snd_zip hlen.ge
  have hloop := exists_foldlM_read (f := decodeNextRecord spec.columnContext total)
    (fun item : (ColumnSpec × ℕ) × Bytes columnRecordLen => item.1.2) (fun item => item.2.val)
    (fun done scan => ScanAfter spec.columns (done.map Prod.fst) scan) (l := items)
    (s := { columns := [], variablesSeen := 0, nextFixedOffset := 0, previousStorage := none }) tail
    ⟨rfl, rfl, by simp, .nil⟩ (by
      rintro done item rest scan remaining hsplit hscan
      have hitem : item ∈ items := by rw [hsplit]; simp
      have hsplit' : spec.columns.zipIdx = done.map Prod.fst ++ item.1 :: rest.map Prod.fst := by
        rw [← hfst, hsplit, List.map_append, List.map_cons]
      obtain ⟨scan', hdecode, hscan'⟩ := decodeRecord_written hcontext hmax hsplit'
        (hzip hitem) hscan
      refine ⟨scan', ?_, by rw [List.map_append]; exact hscan'⟩
      simp only [decodeNextRecord, bind_ok_iff, Prod.exists, take_ok_iff, pure_ok_iff]
      exact ⟨item.2, remaining, rfl, scan', hdecode, rfl⟩)
  have hkeys : items.map (fun item => item.1.2) = List.range spec.columns.length := by
    rw [List.range_eq_range', ← List.zipIdx_map_snd, ← hfst, List.map_map]
    rfl
  have hbytes : items.flatMap (fun item => item.2.val) = records.flatMap Subtype.val := by
    rw [← hsnd, List.flatMap_map]
  rw [hkeys, hbytes, hfst] at hloop
  exact hloop

/-- The names that follow the records complete the columns. -/
theorem decodeColumnNames_written {columns : List ColumnSpec} {raws : List RawColumn}
    (total : ℕ) (tail : List UInt8)
    (hraws : List.Forall₂ (DescribesColumn columns) columns.zipIdx raws)
    (hnames : ∀ entry ∈ columns.zipIdx, AdmittedName columns entry) :
    ∃ decoded, raws.foldlM (decodeColumnName total)
        ([], columns.flatMap (fun column => nameBytes column.name) ++ tail) = .ok (decoded, tail) ∧
      List.Forall₂ (fun entry (column : ColumnDefinition) =>
        DescribesColumn columns entry column.toRawColumn ∧ column.name = entry.1.name)
        columns.zipIdx decoded := by
  obtain ⟨hlen, hzip⟩ := List.forall₂_iff_zip.mp hraws
  let items := columns.zipIdx.zip raws
  have hfst : items.map Prod.fst = columns.zipIdx := List.map_fst_zip hlen.le
  have hsnd : items.map Prod.snd = raws := List.map_snd_zip hlen.ge
  have hloop := exists_foldlM_read (f := decodeColumnName total) (l := items) Prod.snd
    (fun item => nameBytes item.1.1.name)
    (fun done (decoded : List ColumnDefinition) =>
      List.Forall₂ (fun entry (column : ColumnDefinition) =>
        DescribesColumn columns entry column.toRawColumn ∧ column.name = entry.1.name)
        (done.map Prod.fst) decoded) (s := []) tail .nil (by
      rintro done item rest decoded remaining hsplit hdecoded
      have hitem : item ∈ items := by rw [hsplit]; simp
      have hsplit' : columns.zipIdx = done.map Prod.fst ++ item.1 :: rest.map Prod.fst := by
        rw [← hfst, hsplit, List.map_append, List.map_cons]
      obtain ⟨-, -, htake⟩ := Lookup.zipIdx_split hsplit'
      have hentry : item.1 ∈ columns.zipIdx := by rw [hsplit']; simp
      obtain ⟨hne, hle, hfresh⟩ := hnames item.1 hentry
      -- The names read so far are those of the columns before this one.
      have hread : decoded.map ColumnDefinition.name =
          (columns.take item.1.2).map ColumnSpec.name := by
        rw [htake, List.map_map]
        exact (Lookup.map_eq_of_forall₂ (fun _ _ h => h.2.symm) hdecoded).symm
      refine ⟨decoded ++ [{ item.2 with name := item.1.1.name }], ?_, ?_⟩
      · simp only [decodeColumnName, bind_ok_iff, exists_unit, refuseIf_ok_iff, Prod.exists,
          takeName_ok_iff, pure_ok_iff]
        have hduplicate : decoded.any (fun column => column.name = item.1.1.name) = false := by
          rw [List.any_eq_false]
          intro column hcolumn heq
          have hmem := List.mem_map_of_mem (f := ColumnDefinition.name) hcolumn
          rw [hread, of_decide_eq_true heq] at hmem
          exact hfresh hmem
        refine ⟨item.1.1.name, remaining, ⟨Nat.lt_succ_of_le hle, rfl⟩, ?_, rfl⟩
        rw [hduplicate]
        simpa using hne
      · rw [List.map_append]
        exact List.rel_append hdecoded (.cons ⟨hzip hitem, rfl⟩ .nil))
  have hbytes : items.flatMap (fun item => nameBytes item.1.1.name) =
      columns.flatMap fun column => nameBytes column.name := by
    rw [← List.zipIdx_map_fst 0 columns, ← hfst, List.flatMap_map, List.flatMap_map]
  rw [hsnd, hbytes, hfst] at hloop
  exact hloop

/-- The columns of a definition are read back from their records and names. -/
theorem decodeColumns_written {spec : TableDefinitionSpec} {encodingContext : Bytes 4}
    {records : List (Bytes columnRecordLen)} (total : ℕ) (tail : List UInt8)
    (hcontext : encodingContext.val ∈ encodingContexts)
    (hmax : spec.columns.length ≤ maxColumnCount)
    (hrecords : List.Forall₂ (WrittenColumn spec encodingContext) spec.columns.zipIdx records)
    (hnames : ∀ entry ∈ spec.columns.zipIdx, AdmittedName spec.columns entry) :
    ∃ decoded, decodeColumns spec.columnContext total (records.flatMap Subtype.val ++
        (spec.columns.flatMap (fun column => nameBytes column.name) ++ tail)) =
          .ok (decoded, tail) ∧
      List.Forall₂ (fun entry (column : ColumnDefinition) =>
        DescribesColumn spec.columns entry column.toRawColumn ∧ column.name = entry.1.name)
        spec.columns.zipIdx decoded := by
  obtain ⟨scan, hscan, hafter⟩ := decodeRecords_written total
    (spec.columns.flatMap (fun column => nameBytes column.name) ++ tail) hcontext hmax hrecords
  obtain ⟨decoded, hdecoded, hdescribes⟩ := decodeColumnNames_written total tail
    hafter.describes hnames
  refine ⟨decoded, ?_, hdescribes⟩
  simp only [decodeColumns, bind_ok_iff, exists_unit, refuseIf_ok_iff, Prod.exists]
  refine ⟨scan, _, hscan, ?_, hdecoded⟩
  rintro ⟨-, hne⟩
  rw [hafter.variablesSeen_eq, List.zipIdx_map_fst] at hne
  exact hne rfl

end Jet3
