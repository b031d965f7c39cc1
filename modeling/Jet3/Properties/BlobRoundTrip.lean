import Jet3.Properties.Blob
import Mathlib.Logic.Relation

/-!
# The property-blob codec is lossless

Each loop of the parser accepts exactly what the encoder writes for the items it returns.

* `parseNames_ok_iff`, `parseRecords_ok_iff` and `parseBlocks_ok_iff` are the loops;
* `parse_ok_iff` says that a blob is parsed from some bytes exactly when it is well formed and
  encoded as them;
* `PropertyEdit.apply_wellFormed` says that an edit keeps a blob well formed.
-/

namespace Jet3

open Outcome ByteRange

namespace PropertyBlob

/-! ## What is written -/

/-- The stored form of a name. -/
def nameField (name : List UInt8) : List UInt8 :=
  leBytes 2 name.length ++ name

/-- The stored form of a record. -/
def recordField (record : PropertyRecord) : List UInt8 :=
  leBytes 2 record.len ++
    ([record.flag, record.kind] ++ (leBytes 2 record.name.toNat ++ record.data))

/-- The stored form of a block. -/
def blockField (block : PropertyBlock) : List UInt8 :=
  leBytes 4 block.len ++ (leBytes 2 block.kind.toNat ++ (leBytes 4 (block.name.length + 6) ++
    (leBytes 2 block.name.length ++ (block.name ++ block.records.flatMap recordField))))

theorem length_nameField (name : List UInt8) : (nameField name).length = 2 + name.length := by
  rw [nameField, List.length_append, length_leBytes]

theorem length_recordField (record : PropertyRecord) :
    (recordField record).length = record.len := by
  simp only [recordField, List.length_append, length_leBytes, List.length_cons, List.length_nil,
    PropertyRecord.len, recordHeader]
  omega

theorem length_blockField (block : PropertyBlock) : (blockField block).length = block.len := by
  have hrecords : (block.records.flatMap recordField).length =
      (block.records.map PropertyRecord.len).sum := by
    rw [List.length_flatMap]
    simp only [length_recordField]
  simp only [blockField, List.length_append, length_leBytes, hrecords, PropertyBlock.len,
    blockHeader]
  omega

/-- A number is written where it fits. -/
theorem writeNumber_ok_iff {width n : ℕ} {bytes : List UInt8} :
    writeNumber width n = .ok bytes ↔ n < 256 ^ width ∧ leBytes width n = bytes := by
  simp only [writeNumber, bind_ok_iff, exists_unit, refuseIf_ok_iff, not_not, pure_ok_iff]

/-- A name is written where its length fits. -/
theorem writeName_ok_iff {name bytes : List UInt8} :
    writeName name = .ok bytes ↔ name.length < 2 ^ 16 ∧ bytes = nameField name := by
  simp only [writeName, bind_ok_iff, writeNumber_ok_iff, pure_ok_iff]
  constructor
  · rintro ⟨_, ⟨hlen, rfl⟩, rfl⟩
    exact ⟨hlen, rfl⟩
  · rintro ⟨hlen, rfl⟩
    exact ⟨_, ⟨hlen, rfl⟩, rfl⟩

/-- A record fits its length by construction. -/
theorem writeRecord_eq (record : PropertyRecord) :
    writeRecord record = .ok (recordField record) := by
  have hlen : record.len < 256 ^ 2 := record.framed.2
  simp only [writeRecord, bind_ok_iff, writeNumber_ok_iff, pure_ok_iff]
  exact ⟨_, ⟨hlen, rfl⟩, rfl⟩

/-- A block is written where its length fits. -/
theorem writeBlock_ok_iff {block : PropertyBlock} {bytes : List UInt8} :
    writeBlock block = .ok bytes ↔ block.len < 2 ^ 32 ∧ bytes = blockField block := by
  have hrecords : block.records.mapM writeRecord = .ok (block.records.map recordField) :=
    mapM_eq_ok_map fun record _ => writeRecord_eq record
  simp only [writeBlock, bind_ok_iff, writeNumber_ok_iff, hrecords, Except.ok.injEq,
    exists_eq_left', pure_ok_iff, ← List.flatMap_def]
  constructor
  · rintro ⟨_, ⟨hlen, rfl⟩, rfl⟩
    exact ⟨hlen, rfl⟩
  · rintro ⟨hlen, rfl⟩
    exact ⟨_, ⟨hlen, rfl⟩, rfl⟩

/-- A map that fails on no item writes the items one after another. -/
theorem mapM_write_ok_iff {α : Type} {write : α → Except Error (List UInt8)} {fits : α → Prop}
    {field : α → List UInt8} (hwrite : ∀ a bytes, write a = .ok bytes ↔ fits a ∧ bytes = field a)
    {items : List α} {fields : List (List UInt8)} :
    items.mapM write = .ok fields ↔ (∀ a ∈ items, fits a) ∧ fields = items.map field := by
  constructor
  · intro h
    refine ⟨fun a ha => ?_, eq_map_of_mapM_ok (fun a _ bytes hok => ((hwrite a bytes).mp hok).2) h⟩
    obtain ⟨bytes, hok⟩ := exists_mapM_ok_iff.mp ⟨_, h⟩ a ha
    exact ((hwrite a bytes).mp hok).1
  · rintro ⟨hfits, rfl⟩
    exact mapM_eq_ok_map fun a ha => (hwrite a _).mpr ⟨hfits a ha, rfl⟩

/-- The encoder succeeds exactly when every length fits its field. -/
theorem encode_ok_iff {blob : PropertyBlob} {data : List UInt8} :
    encode blob = .ok data ↔
      6 + (blob.names.flatMap nameField).length < 2 ^ 32 ∧
        (∀ name ∈ blob.names, name.length < 2 ^ 16) ∧ (∀ block ∈ blob.blocks, block.len < 2 ^ 32) ∧
        data = propertySignature ++ (leBytes 4 (6 + (blob.names.flatMap nameField).length) ++
          (leBytes 2 blob.dictionaryKind.toNat ++
            (blob.names.flatMap nameField ++ blob.blocks.flatMap blockField))) := by
  have hsum : dictionaryHeader - 4 + (blob.names.map fun name => 2 + name.length).sum =
      6 + (blob.names.flatMap nameField).length := by
    simp only [dictionaryHeader, List.length_flatMap, length_nameField]
  simp only [encode, hsum, bind_ok_iff, writeNumber_ok_iff,
    mapM_write_ok_iff (fun name bytes => writeName_ok_iff),
    mapM_write_ok_iff (fun block bytes => writeBlock_ok_iff), pure_ok_iff]
  constructor
  · rintro ⟨_, ⟨hlen, rfl⟩, _, ⟨hnames, rfl⟩, _, ⟨hblocks, rfl⟩, rfl⟩
    exact ⟨hlen, hnames, hblocks, by simp only [List.flatMap_def]⟩
  · rintro ⟨hlen, hnames, hblocks, rfl⟩
    exact ⟨_, ⟨hlen, rfl⟩, _, ⟨hnames, rfl⟩, _, ⟨hblocks, rfl⟩, by simp only [List.flatMap_def]⟩

/-! ## Names -/

/-- What a dictionary may hold as a name. -/
def ValidName (name : List UInt8) : Prop :=
  name ≠ [] ∧ name.length < 2 ^ 16

/-- A name is read behind its length, before the end of the names. -/
theorem readName_eq_some_iff {data name : List UInt8} {stop position : ℕ}
    (hstop : stop ≤ data.length) (hposition : position < stop) :
    readName data stop position = some name ↔
      ValidName name ∧ position + 2 + name.length ≤ stop ∧
        data.drop position = nameField name ++ data.drop (position + 2 + name.length) := by
  simp only [readName, Option.bind_eq_bind, Option.bind_eq_some_iff, Option.ite_none_right_eq_some,
    Option.some.injEq]
  constructor
  · rintro ⟨length, hlength, _, hname, ⟨hne, hend⟩, rfl⟩
    have hlt := numberAt_lt hlength
    have hbound := (numberAt_eq_some_iff.mp hlength).1
    obtain ⟨rfl, hrest⟩ := (getRange_add_iff hbound).mp hname
    refine ⟨⟨hne, hlt⟩, hend, ?_⟩
    rw [(numberAt_iff (by omega) hlt).mp hlength, hrest, nameField, List.append_assoc]
  · rintro ⟨⟨hne, hlt⟩, hend, hdrop⟩
    have hnumber : data.drop position =
        leBytes 2 name.length ++ data.drop (position + 2) := by
      have hrest : data.drop (position + 2) = name ++ data.drop (position + 2 + name.length) := by
        rw [← List.drop_drop, hdrop, nameField, List.append_assoc,
          List.drop_left' (length_leBytes _ _)]
      rw [hrest, hdrop, nameField, List.append_assoc]
    refine ⟨name.length, (numberAt_iff (by omega) hlt).mpr hnumber, name,
      (getRange_add_iff (by omega)).mpr ⟨rfl, ?_⟩, ⟨hne, hend⟩, rfl⟩
    rw [← List.drop_drop, hdrop, nameField, List.append_assoc, List.drop_left' (length_leBytes _ _)]

/-- What follows an item stands at the end of the item. -/
theorem drop_add_of_append {data field rest : List UInt8} {position n : ℕ}
    (h : data.drop position = field ++ rest) (hn : field.length = n) :
    data.drop (position + n) = rest := by
  rw [← List.drop_drop, h, List.drop_left' hn]

/-- The loop over the names returns names that were written up to the end of the dictionary. -/
theorem parseNames_ok {data : List UInt8} {stop position position' : ℕ}
    {names names' : List (List UInt8)} (hstop : stop ≤ data.length) (hposition : position ≤ stop)
    (hcount : names.length ≤ 2 ^ 16)
    (h : parseNames data stop position names = .ok (names', position')) :
    position' = stop ∧ names'.length ≤ 2 ^ 16 ∧ ∃ added, names' = names ++ added ∧
      (∀ name ∈ added, ValidName name) ∧
      data.drop position = added.flatMap nameField ++ data.drop stop := by
  fun_induction parseNames data stop position names with
  | case1 position names hlt hread => cases h
  | case2 position names hlt name hread hfull => cases h
  | case3 position names hlt name hread hroom ih =>
    obtain ⟨hvalid, hend, hdrop⟩ := (readName_eq_some_iff hstop hlt).mp hread
    obtain ⟨hposition', hcount', added, rfl, hadded, hrest⟩ :=
      ih hend (by rw [List.length_append, List.length_singleton]; omega) h
    refine ⟨hposition', hcount', name :: added, by simp, ?_, ?_⟩
    · exact List.forall_mem_cons.mpr ⟨hvalid, hadded⟩
    · rw [hdrop, hrest, List.flatMap_cons, List.append_assoc]
  | case4 position names hlt =>
    have heq : position = stop := by omega
    simp only [Except.ok.injEq, Prod.mk.injEq] at h
    obtain ⟨rfl, rfl⟩ := h
    exact ⟨heq, hcount, [], by simp, by simp, by rw [heq]; rfl⟩

/-- The loop over the names reads back what was written. -/
theorem parseNames_write {data : List UInt8} {stop : ℕ} (hstop : stop ≤ data.length)
    {added : List (List UInt8)} {position : ℕ} {names : List (List UInt8)}
    (hposition : position ≤ stop)
    (hcount : names.length + added.length ≤ 2 ^ 16) (hadded : ∀ name ∈ added, ValidName name)
    (hdrop : data.drop position = added.flatMap nameField ++ data.drop stop) :
    parseNames data stop position names = .ok (names ++ added, stop) := by
  have htotal := congrArg List.length hdrop
  rw [List.length_append, List.length_drop, List.length_drop] at htotal
  induction added generalizing position names with
  | nil =>
    rw [List.flatMap_nil, List.length_nil] at htotal
    have heq : position = stop := by omega
    rw [parseNames, if_neg (by omega), List.append_nil, heq]
  | cons name added ih =>
    rw [List.flatMap_cons, List.length_append, length_nameField] at htotal
    rw [List.length_cons] at hcount
    rw [List.flatMap_cons, List.append_assoc] at hdrop
    have hrest := drop_add_of_append hdrop (length_nameField name)
    rw [← Nat.add_assoc] at hrest
    have hread : readName data stop position = some name :=
      (readName_eq_some_iff hstop (by omega)).mpr
        ⟨hadded name List.mem_cons_self, by omega, by rw [hrest]; exact hdrop⟩
    rw [parseNames, if_pos (by omega), hread]
    dsimp only
    rw [if_neg (by omega), ih (by omega) (by rw [List.length_append, List.length_singleton]; omega)
      (fun other hother => hadded other (List.mem_cons_of_mem _ hother)) hrest (by omega)]
    simp

/-! ## Records -/

/-- A record whose name is in the dictionary. -/
def Refers (names : List (List UInt8)) (record : PropertyRecord) : Prop :=
  record.name.toNat < names.length

/-- A record is read behind its length, before the end of its block. -/
theorem readRecord_eq_some_iff {block : List UInt8} {position : ℕ}
    (hposition : position < block.length)
    {record :
      { record : List UInt8 // recordHeader + 2 ≤ record.length ∧ record.length < 2 ^ 16 }} :
    readRecord block position = some record ↔
      leAt record.val 0 2 = record.val.length ∧
        block.drop position = record.val ++ block.drop (position + record.val.length) := by
  simp only [readRecord, Option.bind_eq_some_iff, Option.dite_none_right_eq_some, Option.some.injEq]
  constructor
  · rintro ⟨bytes, hbytes, hframed, rfl⟩
    obtain ⟨hlen, hdrop⟩ := (getRange_add_iff hposition.le).mp hbytes
    rcases hnumber : numberAt block position 2 with _ | length
    · rw [hnumber, Option.getD_none] at hlen
      simp only [recordHeader] at hframed
      omega
    · rw [hnumber, Option.getD_some] at hlen hdrop
      rw [← hlen] at hdrop
      refine ⟨?_, hdrop⟩
      obtain ⟨-, hvalue⟩ := numberAt_eq_some_iff.mp hnumber
      dsimp only
      rw [hlen, ← hvalue, leAt, leAt, hdrop, List.drop_zero, List.take_append_of_le_length]
      simp only [recordHeader] at hframed
      omega
  · rintro ⟨hlength, hdrop⟩
    have hlen := record.property
    simp only [recordHeader] at hlen
    have htotal := congrArg List.length hdrop
    rw [List.length_append, List.length_drop, List.length_drop] at htotal
    have hnumber : numberAt block position 2 = some record.val.length := by
      refine numberAt_eq_some_iff.mpr ⟨by omega, ?_⟩
      rw [← hlength, leAt, leAt, hdrop, List.drop_zero, List.take_append_of_le_length (by omega)]
    rw [hnumber]
    exact ⟨record.val, (getRange_add_iff hposition.le).mpr ⟨rfl, hdrop⟩, record.property, rfl⟩

theorem toNat_ofNat_leAt (bytes : List UInt8) (offset : ℕ) :
    (UInt16.ofNat (leAt bytes offset 2)).toNat = leAt bytes offset 2 := by
  have hlt : leAt bytes offset 2 < 2 ^ 16 := leAt_lt bytes offset 2
  rw [UInt16.toNat_ofNat', Nat.mod_eq_of_lt hlt]

/-- The record made of some bytes is written as them. -/
theorem recordField_read {record : List UInt8} (hlen : recordHeader + 2 ≤ record.length)
    (hlength : leAt record 0 2 = record.length)
    (framed : 2 ≤ (record.drop recordHeader).length ∧
      recordHeader + (record.drop recordHeader).length < 2 ^ 16) :
    recordField { flag := byteAt record 2, kind := byteAt record 3
                  name := UInt16.ofNat (leAt record 4 2), data :=
                    record.drop recordHeader, framed } =
      record := by
  have htotal : recordHeader + (record.drop recordHeader).length = leAt record 0 2 := by
    rw [List.length_drop, hlength]
    omega
  simp only [recordField, PropertyRecord.len, toNat_ofNat_leAt, htotal]
  simp only [recordHeader] at hlen ⊢
  rw [leBytes_leAt (by omega), leBytes_leAt (by omega)]
  obtain ⟨a, b, c, d, e, f, rest, rfl⟩ : ∃ a b c d e f rest,
      record = a :: b :: c :: d :: e :: f :: rest := by
    rcases record with _ | ⟨a, _ | ⟨b, _ | ⟨c, _ | ⟨d, _ | ⟨e, _ | ⟨f, rest⟩⟩⟩⟩⟩⟩ <;>
      simp only [List.length_nil, List.length_cons] at hlen
    all_goals first | omega | exact ⟨a, b, c, d, e, f, rest, rfl⟩
  rfl

/-- A written record is read back. -/
theorem read_recordField (record : PropertyRecord) :
    leAt (recordField record) 0 2 = (recordField record).length ∧
      byteAt (recordField record) 2 = record.flag ∧ byteAt (recordField record) 3 = record.kind ∧
      leAt (recordField record) 4 2 = record.name.toNat ∧
      (recordField record).drop recordHeader = record.data := by
  have hlen : record.len < 256 ^ 2 := record.framed.2
  have hname : record.name.toNat < 256 ^ 2 := record.name.toNat_lt
  refine ⟨?_, rfl, rfl, ?_, rfl⟩
  · rw [length_recordField]
    exact leValue_leBytes_of_lt hlen
  · exact leValue_leBytes_of_lt hname

/-- The loop over the records returns records that were written up to the end of the block. -/
theorem parseRecords_ok {names : List (List UInt8)} {block : List UInt8} {position : ℕ}
    {parsed result : PropertyBlock} (hposition : position ≤ block.length)
    (h : parseRecords names block position parsed = .ok result) :
    ∃ added, result = { parsed with records := parsed.records ++ added } ∧
      (∀ record ∈ added, Refers names record) ∧ block.drop position =
        added.flatMap recordField := by
  fun_induction parseRecords names block position parsed with
  | case1 position parsed hlt hread => cases h
  | case2 position parsed hlt record hlen hread name hname => cases h
  | case3 position parsed hlt record hlen hread name hname framed ih =>
    obtain ⟨hlength, hdrop⟩ := (readRecord_eq_some_iff hlt).mp hread
    dsimp only at hlength hdrop
    have htotal := congrArg List.length hdrop
    rw [List.length_append, List.length_drop, List.length_drop] at htotal
    simp only [recordHeader] at hlen
    obtain ⟨added, rfl, hadded, hrest⟩ := ih (by omega) h
    refine ⟨_ :: added, by rw [List.append_assoc]; rfl, List.forall_mem_cons.mpr ⟨?_, hadded⟩, ?_⟩
    · rw [Refers]
      dsimp only
      rw [toNat_ofNat_leAt]
      omega
    · rw [List.flatMap_cons, recordField_read (by rw [recordHeader]; omega) hlength, ← hrest]
      exact hdrop
  | case4 position parsed hlt =>
    cases h
    have heq : position = block.length := by omega
    exact ⟨[], by rw [List.append_nil], by simp, by rw [heq, List.drop_length]; rfl⟩

/-- The loop over the records reads back what was written. -/
theorem parseRecords_write {names : List (List UInt8)} {block : List UInt8}
    {added : List PropertyRecord} {position : ℕ} {parsed : PropertyBlock}
    (hposition : position ≤ block.length) (hadded : ∀ record ∈ added, Refers names record)
    (hdrop : block.drop position = added.flatMap recordField) :
    parseRecords names block position parsed =
      .ok { parsed with records := parsed.records ++ added } := by
  have htotal := congrArg List.length hdrop
  rw [List.length_drop] at htotal
  induction added generalizing position parsed with
  | nil =>
    rw [List.flatMap_nil, List.length_nil] at htotal
    rw [parseRecords, if_neg (by omega), List.append_nil]
  | cons record added ih =>
    rw [List.flatMap_cons, List.length_append, length_recordField] at htotal
    rw [List.flatMap_cons] at hdrop
    have hframed := record.framed
    have hsize : record.len = recordHeader + record.data.length := rfl
    have hrest := drop_add_of_append hdrop (length_recordField record)
    obtain ⟨hlength, hflag, hkind, hname, hdata⟩ := read_recordField record
    have hread : readRecord block position =
        some ⟨recordField record, by rw [length_recordField]; omega⟩ := by
      refine (readRecord_eq_some_iff (by simp only [recordHeader] at hsize; omega)).mpr
        ⟨hlength, ?_⟩
      dsimp only
      rw [length_recordField, hrest]
      exact hdrop
    rw [parseRecords, if_pos (by simp only [recordHeader] at hsize; omega), hread]
    dsimp only
    have hrefers : record.name.toNat < names.length := hadded record List.mem_cons_self
    rw [if_neg (by rw [hname]; omega)]
    simp only [hflag, hkind, hname, hdata, UInt16.ofNat_toNat, length_recordField]
    rw [ih (by omega) (fun other hother => hadded other (List.mem_cons_of_mem _ hother)) hrest
      (by omega)]
    simp

/-! ## Blocks -/

/-- A block whose records all have a name in the dictionary. -/
def BlockRefers (names : List (List UInt8)) (block : PropertyBlock) : Prop :=
  ∀ record ∈ block.records, Refers names record

/-- A block is made where the length of its name fits. -/
theorem new_ok_iff {kind : UInt16} {name : List UInt8} {block : PropertyBlock} :
    PropertyBlock.new kind name = .ok block ↔
      ∃ h : name.length < 2 ^ 16, { kind, name, records := [], name_lt := h } = block := by
  unfold PropertyBlock.new
  split
  next h =>
    rw [Except.ok.injEq]
    exact ⟨fun heq => ⟨h, heq⟩, fun ⟨_, heq⟩ => heq⟩
  next h => exact ⟨fun heq => (by cases heq), fun ⟨hlt, _⟩ => absurd hlt h⟩

/-- A block is parsed from the bytes that are written for it. -/
theorem parseBlock_ok {names : List (List UInt8)} {block : List UInt8} {parsed : PropertyBlock}
    (hheader : blockHeader ≤ block.length) (hlength : leAt block 0 4 = block.length)
    (h : parseBlock names block = .ok parsed) :
    block = blockField parsed ∧ BlockRefers names parsed := by
  simp only [blockHeader] at hheader
  simp only [parseBlock, bind_ok_iff, okOr_ok_iff, exists_unit, refuseIf_ok_iff, mapError_ok_iff,
    ne_eq, not_not, new_ok_iff, blockHeader] at h
  obtain ⟨kind, hkind, nameFrame, hframe, hnameFrame, name, hname, _, ⟨hlt, rfl⟩, hrecords⟩ := h
  obtain ⟨nameLength, hnameLength⟩ : ∃ n, numberAt block 10 2 = some n :=
    ⟨_, numberAt_eq_some_iff.mpr ⟨by omega, rfl⟩⟩
  rw [hnameLength, Option.getD_some] at hnameFrame hname hrecords
  have hbound := (getRange_eq_some_iff.mp hname).2.1
  obtain ⟨hnameLen, hnameDrop⟩ := (getRange_add_iff (by omega)).mp hname
  obtain ⟨added, rfl, hadded, hdrop⟩ := parseRecords_ok hbound hrecords
  have hkindLt : kind < 2 ^ 16 := numberAt_lt hkind
  have hlen : 12 + name.length + (added.flatMap recordField).length = block.length := by
    have htotal := congrArg List.length hdrop
    rw [List.length_drop] at htotal
    omega
  refine ⟨?_, hadded⟩
  have hsize : PropertyBlock.len
    { kind := UInt16.ofNat kind, name, records := added, name_lt := hlt } =
      leAt block 0 4 := by
    rw [hlength, ← hlen, ← length_blockField]
    simp only [blockField, List.length_append, length_leBytes]
    omega
  -- the header fields follow each other
  have hfirst : block = leBytes 4 (leAt block 0 4) ++ block.drop 4 := by
    rw [leBytes_leAt (by omega), List.drop_zero, List.take_append_drop]
  have hsecond := (numberAt_iff (by omega) (numberAt_lt hkind)).mp hkind
  have hthird := (numberAt_iff (by omega) (numberAt_lt hframe)).mp hframe
  have hfourth := (numberAt_iff (by omega) (numberAt_lt hnameLength)).mp hnameLength
  rw [blockField, List.nil_append, hsize]
  dsimp only
  rw [UInt16.toNat_ofNat', Nat.mod_eq_of_lt hkindLt, hnameLen, ← hnameFrame, ← hdrop, ← hnameDrop,
    ← hfourth, ← hthird, ← hsecond, ← hfirst]

/-- A written block is read back. -/
theorem parseBlock_write {names : List (List UInt8)} {block : PropertyBlock}
    (hrefers : BlockRefers names block) : parseBlock names (blockField block) = .ok block := by
  have hkind : block.kind.toNat < 256 ^ 2 := block.kind.toNat_lt
  have hname : block.name.length < 256 ^ 2 := block.name_lt
  have hframe : block.name.length + 6 < 256 ^ 4 := by
    have := block.name_lt
    omega
  have hdrop : ∀ n, (blockField block).drop (4 + n) = (leBytes 2 block.kind.toNat ++
      (leBytes 4 (block.name.length + 6) ++ (leBytes 2 block.name.length ++
        (block.name ++ block.records.flatMap recordField)))).drop n := by
    intro n
    rw [← List.drop_drop, blockField, List.drop_left' (length_leBytes _ _)]
  have hlen := length_blockField block
  have hsize : block.len = 12 + block.name.length + (block.records.map PropertyRecord.len).sum :=
    rfl
  have h4 := hdrop 0
  have h6 : (blockField block).drop 6 = _ := drop_add_of_append h4 (length_leBytes 2 _)
  have h10 : (blockField block).drop 10 = _ := drop_add_of_append h6 (length_leBytes 4 _)
  have h12 : (blockField block).drop 12 = _ := drop_add_of_append h10 (length_leBytes 2 _)
  have hrest : (blockField block).drop (12 + block.name.length) = _ := drop_add_of_append h12 rfl
  simp only [parseBlock, bind_ok_iff, okOr_ok_iff, exists_unit, refuseIf_ok_iff, mapError_ok_iff,
    ne_eq, not_not, new_ok_iff, blockHeader]
  refine ⟨block.kind.toNat, (numberAt_iff (by omega) hkind).mpr ?_, block.name.length + 6,
    (numberAt_iff (by omega) hframe).mpr ?_, ?_⟩
  · rw [h6]
    exact h4
  · rw [h10]
    exact h6
  · have hnumber : numberAt (blockField block) 10 2 = some block.name.length :=
      (numberAt_iff (by omega) hname).mpr (by rw [h12]; exact h10)
    rw [hnumber, Option.getD_some]
    refine ⟨rfl, block.name, (getRange_add_iff (by omega)).mpr ⟨rfl, by rw [hrest]; exact h12⟩, _,
      ⟨block.name_lt, rfl⟩, ?_⟩
    rw [parseRecords_write (by omega) hrefers hrest, UInt16.ofNat_toNat]
    rfl

/-- A block that fits its length field. -/
def BlockFits (names : List (List UInt8)) (block : PropertyBlock) : Prop :=
  block.len < 2 ^ 32 ∧ BlockRefers names block

/-- A block ends where its length says, behind its start and inside the blob. -/
theorem blockEnd_eq_some_iff {data : List UInt8} {position : ℕ}
    {stop : { stop : ℕ // position < stop ∧ stop ≤ data.length }} :
    blockEnd data position = some stop ↔ blockHeader ≤ stop.val - position ∧
      numberAt data position 4 = some (stop.val - position) := by
  simp only [blockEnd, Option.bind_eq_some_iff, Option.dite_none_right_eq_some, Option.some.injEq]
  constructor
  · rintro ⟨length, hnumber, ⟨hheader, hstop⟩, rfl⟩
    dsimp only
    rw [Nat.add_sub_cancel_left]
    exact ⟨hheader, hnumber⟩
  · rintro ⟨hheader, hnumber⟩
    have hstop := stop.property
    exact ⟨_, hnumber, ⟨hheader, by omega⟩, Subtype.ext (by dsimp only; omega)⟩

/-- The loop over the blocks returns blocks that were written up to the end of the bytes. -/
theorem parseBlocks_ok {data : List UInt8} {names : List (List UInt8)} {position : ℕ}
    {blocks result : List PropertyBlock} (hposition : position ≤ data.length)
    (h : parseBlocks data names position blocks = .ok result) :
    ∃ added, result = blocks ++ added ∧ (∀ block ∈ added, BlockFits names block) ∧
      data.drop position = added.flatMap blockField := by
  fun_induction parseBlocks data names position blocks with
  | case1 position blocks hlt hread => cases h
  | case2 position blocks hlt stop hbounds hread ih =>
    simp only [bind_ok_iff, okOr_ok_iff] at h
    obtain ⟨block, hblock, parsed, hparsed, h⟩ := h
    obtain ⟨hheader, hnumber⟩ := blockEnd_eq_some_iff.mp hread
    dsimp only at hheader hnumber
    have hlen := length_getRange hblock
    have hstop : position + (stop - position) = stop := by omega
    rw [← hstop, getRange_add_iff hposition, hstop] at hblock
    obtain ⟨-, hdrop⟩ := hblock
    -- the length that located the end of the block stands at its start
    have hlength : leAt block 0 4 = block.length := by
      obtain ⟨-, hvalue⟩ := numberAt_eq_some_iff.mp hnumber
      simp only [blockHeader] at hheader
      rw [hlen, ← hvalue, leAt, leAt, hdrop, List.drop_zero,
        List.take_append_of_le_length (by omega)]
    obtain ⟨hfield, hrefers⟩ := parseBlock_ok (by omega) hlength hparsed
    obtain ⟨added, rfl, hadded, hrest⟩ := ih parsed hbounds.2 h
    have hfits : parsed.len < 2 ^ 32 := by
      rw [← length_blockField, ← hfield, hlen]
      exact numberAt_lt hnumber
    refine ⟨parsed :: added, by simp, List.forall_mem_cons.mpr ⟨⟨hfits, hrefers⟩, hadded⟩, ?_⟩
    rw [List.flatMap_cons, ← hfield, ← hrest, hdrop]
  | case3 position blocks hlt =>
    cases h
    have heq : position = data.length := by omega
    exact ⟨[], by simp, by simp, by rw [heq, List.drop_length]; rfl⟩

/-- The loop over the blocks reads back what was written. -/
theorem parseBlocks_write {data : List UInt8} {names : List (List UInt8)}
    {added : List PropertyBlock} {position : ℕ} {blocks : List PropertyBlock}
    (hposition : position ≤ data.length) (hadded : ∀ block ∈ added, BlockFits names block)
    (hdrop : data.drop position = added.flatMap blockField) :
    parseBlocks data names position blocks = .ok (blocks ++ added) := by
  have htotal := congrArg List.length hdrop
  rw [List.length_drop] at htotal
  induction added generalizing position blocks with
  | nil =>
    rw [List.flatMap_nil, List.length_nil] at htotal
    rw [parseBlocks, if_neg (by omega), List.append_nil]
  | cons block added ih =>
    obtain ⟨hfits, hrefers⟩ := hadded block List.mem_cons_self
    rw [List.flatMap_cons, List.length_append, length_blockField] at htotal
    rw [List.flatMap_cons] at hdrop
    have hsize : block.len = 12 + block.name.length + (block.records.map PropertyRecord.len).sum :=
      rfl
    have hrest := drop_add_of_append hdrop (length_blockField block)
    have hbounds : position < position + block.len ∧ position + block.len ≤ data.length := by omega
    -- the block ends where its length says
    have hread : blockEnd data position = some ⟨position + block.len, hbounds⟩ := by
      refine blockEnd_eq_some_iff.mpr ?_
      dsimp only
      rw [Nat.add_sub_cancel_left]
      refine ⟨by rw [blockHeader]; omega, numberAt_eq_some_iff.mpr ⟨by omega, ?_⟩⟩
      rw [leAt, hdrop, blockField, List.append_assoc, List.take_left' (length_leBytes _ _)]
      exact leValue_leBytes_of_lt hfits
    have hrange : getRange data position (position + block.len) = some (blockField block) :=
      (getRange_add_iff hposition).mpr ⟨length_blockField block, by rw [hrest]; exact hdrop⟩
    rw [parseBlocks, if_pos (by omega), hread]
    dsimp only
    rw [hrange, okOr, bind_ok_iff]
    refine ⟨_, rfl, ?_⟩
    rw [bind_ok_iff]
    refine ⟨block, parseBlock_write hrefers, ?_⟩
    rw [ih hbounds.2 (fun other hother => hadded other (List.mem_cons_of_mem _ hother)) hrest
      (by omega), List.append_assoc]
    rfl

/-! ## Blobs -/

/-- What every parsed or edited blob satisfies. -/
structure WellFormed (blob : PropertyBlob) : Prop where
  kind : blob.dictionaryKind = Jet3.dictionaryKind
  names : ∀ name ∈ blob.names, name ≠ []
  count : blob.names.length ≤ 2 ^ 16
  refers : ∀ block ∈ blob.blocks, BlockRefers blob.names block

/-- The names end behind their header and inside the blob. -/
theorem dictionaryEnd_eq_some_iff {data : List UInt8} {stop : ℕ} :
    dictionaryEnd data = some stop ↔
      dictionaryHeader ≤ stop ∧ stop ≤ data.length ∧ numberAt data 4 4 = some (stop - 4) := by
  simp only [dictionaryEnd, Option.bind_eq_some_iff, Option.ite_none_right_eq_some,
    Option.some.injEq]
  constructor
  · rintro ⟨length, hnumber, ⟨hheader, hstop⟩, rfl⟩
    exact ⟨hheader, hstop, hnumber⟩
  · rintro ⟨hheader, hstop, hnumber⟩
    simp only [dictionaryHeader] at hheader ⊢
    exact ⟨_, hnumber, ⟨by omega, by omega⟩, by omega⟩

/-- Some bytes are parsed to a blob exactly when it is well formed and encoded as them. -/
theorem parse_ok_iff {data : List UInt8} {blob : PropertyBlob} :
    parse data = .ok blob ↔ blob.WellFormed ∧ encode blob = .ok data := by
  rw [encode_ok_iff]
  simp only [parse, bind_ok_iff, exists_unit, refuseIf_ok_iff, not_not, ne_eq, okOr_ok_iff,
    pure_ok_iff, Prod.exists, dictionaryEnd_eq_some_iff, dictionaryHeader]
  constructor
  · rintro ⟨hsignature, stop, ⟨hheader, hstop, hlength⟩, kind, hkind, rfl, names, position, hnames,
      blocks, hblocks, rfl⟩
    obtain ⟨rfl, hcount, added, hadded, hvalid, hnamesDrop⟩ :=
      parseNames_ok hstop hheader (by simp) hnames
    rw [List.nil_append] at hadded
    subst hadded
    obtain ⟨added, hadded, hfits, hblocksDrop⟩ := parseBlocks_ok hstop hblocks
    rw [List.nil_append] at hadded
    subst hadded
    obtain ⟨-, hfirst⟩ := (getRange_add_iff (n := 4) (Nat.zero_le _)).mp hsignature
    have hsecond := (numberAt_iff (by omega) (numberAt_lt hlength)).mp hlength
    have hthird := (numberAt_iff (by omega) (numberAt_lt hkind)).mp hkind
    have htotal := congrArg List.length hnamesDrop
    rw [List.length_append, List.length_drop, List.length_drop] at htotal
    have hdictionary : position - 4 = 6 + (names.flatMap nameField).length := by omega
    have hlt := numberAt_lt hlength
    rw [hdictionary] at hlt hsecond
    refine ⟨⟨rfl, fun name hname => (hvalid name hname).1, hcount, fun block hblock =>
      (hfits block hblock).2⟩, hlt, fun name hname => (hvalid name hname).2, fun block hblock =>
      (hfits block hblock).1, ?_⟩
    rw [List.drop_zero, Nat.zero_add] at hfirst
    dsimp only
    rw [← hblocksDrop, ← hnamesDrop]
    exact hfirst.trans (congrArg _ (hsecond.trans (congrArg _ hthird)))
  · rintro ⟨⟨hkind, hnames, hcount, hrefers⟩, hdictionary, hnamesFit, hblocksFit, hdata⟩
    -- conversely every field stands where the one before it ends
    have h4 : data.drop (0 + 4) = _ := drop_add_of_append (by rw [List.drop_zero]; exact hdata) rfl
    have h8 : data.drop (4 + 4) = _ := drop_add_of_append h4 (length_leBytes 4 _)
    have h10 : data.drop (8 + 2) = _ := drop_add_of_append h8 (length_leBytes 2 _)
    have hstop : data.drop (10 + (blob.names.flatMap nameField).length) = _ :=
      drop_add_of_append h10 rfl
    have hlen := congrArg List.length hdata
    simp only [List.length_append, length_leBytes, propertySignature, List.length_cons,
      List.length_nil] at hlen
    have hkindLt : blob.dictionaryKind.toNat < 256 ^ 2 := blob.dictionaryKind.toNat_lt
    have hsub : 10 + (blob.names.flatMap nameField).length - 4 =
        6 + (blob.names.flatMap nameField).length := by omega
    have hvalid : ∀ name ∈ blob.names, ValidName name := fun name hname =>
      ⟨hnames name hname, hnamesFit name hname⟩
    have hsignature : getRange data 0 4 = some propertySignature := by
      refine (getRange_add_iff (n := 4) (Nat.zero_le _)).mpr ⟨rfl, ?_⟩
      rw [h4]
      exact hdata
    refine ⟨hsignature, 10 + (blob.names.flatMap nameField).length, ⟨by omega, by omega, ?_⟩,
      blob.dictionaryKind.toNat, (numberAt_iff (by omega) hkindLt).mpr (by rw [h10]; exact h8),
      by rw [hkind], blob.names, 10 + (blob.names.flatMap nameField).length, ?_, blob.blocks, ?_,
        ?_⟩
    · rw [hsub]
      exact (numberAt_iff (by omega) hdictionary).mpr (by rw [h8]; exact h4)
    · rw [parseNames_write (by omega) (by omega) (by simpa using hcount) hvalid
        (by rw [hstop]; exact h10), List.nil_append]
    · rw [parseBlocks_write (by omega) (fun block hblock => ⟨hblocksFit block hblock,
        hrefers block hblock⟩) hstop, List.nil_append]
    · rw [UInt16.ofNat_toNat]

/-! ## No panic -/

/-- Records are read without an access outside of their block. -/
theorem parseRecords_avoids_panic (names : List (List UInt8)) (block : List UInt8) (position : ℕ)
    (parsed : PropertyBlock) : Avoids .panic (parseRecords names block position parsed) := by
  have herror : ∀ detail : String, invalid detail ≠ .panic := fun _ h => by cases h
  fun_induction parseRecords names block position parsed with
  | case1 => exact Avoids.error (herror _)
  | case2 => exact Avoids.error (herror _)
  | case3 position parsed hlt record hlen hread name hname framed ih => exact ih
  | case4 => exact Avoids.ok _

/-- So are names. -/
theorem parseNames_avoids_panic (data : List UInt8) (stop position : ℕ)
    (names : List (List UInt8)) :
    Avoids .panic (parseNames data stop position names) := by
  have herror : ∀ detail : String, invalid detail ≠ .panic := fun _ h => by cases h
  fun_induction parseNames data stop position names with
  | case1 => exact Avoids.error (herror _)
  | case2 => exact Avoids.error (herror _)
  | case3 position names hlt name hread hroom ih => exact ih
  | case4 => exact Avoids.ok _

/-- So is a block with a whole header. -/
theorem parseBlock_avoids_panic {names : List (List UInt8)} {block : List UInt8}
    (hheader : blockHeader ≤ block.length) : Avoids .panic (parseBlock names block) := by
  have herror : ∀ detail : String, invalid detail ≠ .panic := fun _ h => by cases h
  have hkind : numberAt block 4 2 = some (leAt block 4 2) :=
    numberAt_eq_some_iff.mpr ⟨by rw [blockHeader] at hheader; omega, rfl⟩
  rw [parseBlock, hkind]
  refine (Avoids.ok _).bind fun _ _ => (Avoids.okOr (herror _)).bind fun _ _ => ?_
  refine (Avoids.refuseIf (herror _)).bind fun _ _ => (Avoids.okOr (herror _)).bind fun name _ => ?_
  refine Avoids.bind ?_ fun parsed _ => parseRecords_avoids_panic _ _ _ _
  intro hpanic
  unfold PropertyBlock.new at hpanic
  split at hpanic <;> cases hpanic

/-- So are all blocks. -/
theorem parseBlocks_avoids_panic {data : List UInt8} {names : List (List UInt8)} {position : ℕ}
    {blocks : List PropertyBlock} (hposition : position ≤ data.length) :
    Avoids .panic (parseBlocks data names position blocks) := by
  have herror : ∀ detail : String, invalid detail ≠ .panic := fun _ h => by cases h
  fun_induction parseBlocks data names position blocks with
  | case1 => exact Avoids.error (herror _)
  | case2 position blocks hlt stop hbounds hread ih =>
    obtain ⟨hheader, -⟩ := blockEnd_eq_some_iff.mp hread
    dsimp only at hheader
    have hrange : getRange data position stop =
        some ((data.drop position).take (stop - position)) :=
      getRange_eq_some_iff.mpr ⟨hbounds.1.le, hbounds.2, rfl⟩
    have hlen := length_getRange hrange
    rw [hrange]
    refine (Avoids.ok _).bind fun block hblock => ?_
    cases hblock
    exact (parseBlock_avoids_panic (by omega)).bind fun parsed _ => ih parsed hbounds.2
  | case3 => exact Avoids.ok _

/-- No bytes stop the program: what is refused is refused with an error. -/
theorem parse_avoids_panic (data : List UInt8) : Avoids .panic (parse data) := by
  have herror : ∀ detail : String, invalid detail ≠ .panic := fun _ h => by cases h
  rw [parse]
  refine (Avoids.refuseIf (herror _)).bind fun _ _ =>
    (Avoids.okOr (herror _)).bind fun stop hstop => ?_
  obtain ⟨hheader, hbound, -⟩ := dictionaryEnd_eq_some_iff.mp (okOr_ok_iff.mp hstop)
  refine (Avoids.okOr (herror _)).bind fun kind _ => (Avoids.refuseIf (herror _)).bind fun _ _ => ?_
  refine (parseNames_avoids_panic _ _ _ _).bind ?_
  rintro ⟨names, position⟩ hnames
  obtain ⟨rfl, -⟩ := parseNames_ok hbound hheader (by simp) hnames
  exact (parseBlocks_avoids_panic hbound).bind fun blocks _ => Avoids.pure _

end PropertyBlob

/-! ## Edits -/

open PropertyBlob

/-- What a caller promises of an edit: a name it interns is not empty, and a record it stores has a
name of the dictionary. -/
def PropertyEdit.Allowed (blob : PropertyBlob) : PropertyEdit → Prop
  | .intern name => name ≠ []
  | .push block => BlockRefers blob.names block
  | .set _ record => Refers blob.names record
  | .remove _ _ | .rename _ _ | .retain _ => True

/-- A record of an edited block is an old one or the new one. -/
theorem PropertyBlock.mem_set {block : PropertyBlock} {record other : PropertyRecord}
    (h : other ∈ (block.set record).records) : other ∈ block.records ∨ other = record := by
  unfold PropertyBlock.set at h
  split at h
  · exact List.mem_or_eq_of_mem_set h
  · exact (List.mem_append.mp h).imp_right List.mem_singleton.mp

/-- A block that is renamed keeps its records. -/
theorem PropertyBlock.rename_records {block renamed : PropertyBlock} {name : List UInt8}
    (h : block.rename name = .ok renamed) : renamed.records = block.records := by
  simp only [rename, bind_ok_iff, pure_ok_iff] at h
  obtain ⟨_, -, rfl⟩ := h
  rfl

namespace PropertyBlob

variable {blob edited : PropertyBlob}

/-- The names of a blob that was interned into. -/
theorem intern_ok {name : List UInt8} {ordinal : UInt16}
    (h : blob.intern name = .ok (edited, ordinal)) :
    edited = blob ∨
      (edited = { blob with names := blob.names ++ [name] } ∧ blob.names.length < 2 ^ 16) := by
  unfold intern at h
  split at h
  · exact Or.inl (congrArg Prod.fst (Except.ok.inj h)).symm
  · split at h
    next hlt => exact Or.inr ⟨(congrArg Prod.fst (Except.ok.inj h)).symm, hlt⟩
    next => cases h

/-- An edit of one block keeps a blob well formed where it keeps the records of the block. -/
theorem modifyBlock_wellFormed {position : ℕ}
    {edit : PropertyBlock → Except ColumnPropertyError PropertyBlock} (hblob : blob.WellFormed)
    (hedit : ∀ block edited, BlockRefers blob.names block → edit block = .ok edited →
      BlockRefers blob.names edited)
    (h : blob.modifyBlock position edit = .ok edited) : edited.WellFormed := by
  simp only [modifyBlock, bind_ok_iff, okOr_ok_iff, pure_ok_iff] at h
  obtain ⟨block, hblock, changed, hchanged, rfl⟩ := h
  refine ⟨hblob.kind, hblob.names, hblob.count, fun other hother => ?_⟩
  rcases List.mem_or_eq_of_mem_set hother with hold | rfl
  · exact hblob.refers other hold
  · exact hedit block other (hblob.refers block (List.mem_of_getElem? hblock)) hchanged

end PropertyBlob

/-- An allowed edit keeps a blob well formed. -/
theorem PropertyEdit.apply_wellFormed {blob edited : PropertyBlob} {edit : PropertyEdit}
    (hallowed : edit.Allowed blob) (hblob : blob.WellFormed) (h : edit.apply blob = .ok edited) :
    edited.WellFormed := by
  cases edit with
  | intern name =>
    obtain ⟨⟨_, ordinal⟩, hintern, rfl⟩ := map_ok_iff.mp h
    rcases intern_ok hintern with rfl | ⟨rfl, hlt⟩
    · exact hblob
    · -- a longer dictionary has every name the records refer to
      refine ⟨hblob.kind, fun other hother => ?_, ?_, fun block hblock record hrecord => ?_⟩
      · rcases List.mem_append.mp hother with hold | hnew
        · exact hblob.names other hold
        · rw [List.mem_singleton.mp hnew]
          exact hallowed
      · rw [List.length_append, List.length_singleton]
        omega
      · have hold : record.name.toNat < blob.names.length :=
          hblob.refers block hblock record hrecord
        simp only [Refers, List.length_append]
        omega
  | push block =>
    cases h
    refine ⟨hblob.kind, hblob.names, hblob.count, fun other hother => ?_⟩
    rcases List.mem_append.mp hother with hold | hnew
    · exact hblob.refers other hold
    · rw [List.mem_singleton.mp hnew]
      exact hallowed
  | set position record =>
    refine modifyBlock_wellFormed hblob (fun block edited hblock hedit other hother => ?_) h
    cases hedit
    rcases PropertyBlock.mem_set hother with hold | rfl
    · exact hblock other hold
    · exact hallowed
  | remove position name =>
    refine modifyBlock_wellFormed hblob (fun block edited hblock hedit other hother => ?_) h
    cases hedit
    exact hblock other (List.mem_filter.mp hother).1
  | rename position name =>
    refine modifyBlock_wellFormed hblob (fun block edited hblock hedit other hother => ?_) h
    rw [PropertyBlock.rename_records hedit] at hother
    exact hblock other hother
  | retain keep =>
    cases h
    exact ⟨hblob.kind, hblob.names, hblob.count, fun block hblock =>
      hblob.refers block (List.mem_filter.mp hblock).1⟩

/-- One allowed edit of a blob. -/
def PropertyBlob.EditStep (blob edited : PropertyBlob) : Prop :=
  ∃ edit : PropertyEdit, edit.Allowed blob ∧ edit.apply blob = .ok edited

/-- Edits keep a blob well formed. -/
theorem PropertyBlob.edits_wellFormed {blob edited : PropertyBlob} (hblob : blob.WellFormed)
    (h : Relation.ReflTransGen EditStep blob edited) : edited.WellFormed := by
  induction h with
  | refl => exact hblob
  | tail _ hstep ih =>
    obtain ⟨edit, hallowed, happly⟩ := hstep
    exact edit.apply_wellFormed hallowed ih happly

/-- An empty blob is well formed. -/
theorem PropertyBlob.empty_wellFormed : empty.WellFormed :=
  ⟨rfl, by simp [empty], by simp [empty], by simp [empty]⟩

/-! ## The codec -/

/-- Parsed bytes are encoded back, an edited blob is parsed back from its encoding, and every byte
string is parsed or refused with an error. -/
theorem propertyBlob_lossless :
    (∀ data blob, PropertyBlob.parse data = .ok blob → blob.encode = .ok data) ∧
      (∀ start blob data, (start = PropertyBlob.empty ∨ ∃ source, PropertyBlob.parse source =
        .ok start) →
        Relation.ReflTransGen PropertyBlob.EditStep start blob → blob.encode = .ok data →
        PropertyBlob.parse data = .ok blob) ∧
      ∀ data, (∃ blob, PropertyBlob.parse data = .ok blob) ∨
        ∃ source, PropertyBlob.parse data = .error (.error source) := by
  refine ⟨fun data blob h => (parse_ok_iff.mp h).2, ?_, fun data => ?_⟩
  · intro start blob data hstart hedits hencode
    have hwell : start.WellFormed := by
      rcases hstart with rfl | ⟨source, hsource⟩
      · exact empty_wellFormed
      · exact (parse_ok_iff.mp hsource).1
    exact parse_ok_iff.mpr ⟨edits_wellFormed hwell hedits, hencode⟩
  · rcases hparse : PropertyBlob.parse data with fault | blob
    · cases fault with
      | panic => exact absurd hparse (parse_avoids_panic data)
      | error source => exact Or.inr ⟨source, rfl⟩
    · exact Or.inl ⟨blob, rfl⟩

/-- A Text record with the value `Hi`. -/
def captionRecord : PropertyRecord :=
  { flag := 1, kind := 10, name := 0, data := [2, 0, 0x48, 0x69], framed := by decide }

/-- A blob with one caption. -/
def captionBlob : PropertyBlob :=
  { PropertyBlob.empty with
    names := [[0x43, 0x61, 0x70]]
    blocks := [{ kind := 0, name := [], records := [captionRecord], name_lt := by decide }] }

/-- The blob of a caption is encoded and parsed back. -/
theorem propertyBlob_lossless_caption :
    ∃ data, captionBlob.encode = .ok data ∧ PropertyBlob.parse data = .ok captionBlob := by
  obtain ⟨data, hdata⟩ := exists_ok (x := captionBlob.encode) (by decide +kernel)
  refine ⟨data, hdata, propertyBlob_lossless.2.1 PropertyBlob.empty captionBlob data (Or.inl rfl) ?_
    hdata⟩
  have hintern : PropertyBlob.EditStep PropertyBlob.empty
      { PropertyBlob.empty with names := [[0x43, 0x61, 0x70]] } :=
    ⟨.intern [0x43, 0x61, 0x70], by simp [PropertyEdit.Allowed], rfl⟩
  have hpush : PropertyBlob.EditStep { PropertyBlob.empty with names := [[0x43, 0x61, 0x70]] }
      { PropertyBlob.empty with
        names := [[0x43, 0x61, 0x70]]
        blocks := [{ kind := 0, name := [], records := [], name_lt := by decide }] } :=
    ⟨.push { kind := 0, name := [], records := [], name_lt := by decide },
      fun record hrecord => by simp at hrecord, rfl⟩
  have hset : PropertyBlob.EditStep
      { PropertyBlob.empty with
        names := [[0x43, 0x61, 0x70]]
        blocks := [{ kind := 0, name := [], records := [], name_lt := by decide }] } captionBlob :=
    ⟨.set 0 captionRecord, by simp [PropertyEdit.Allowed, Refers, captionRecord], rfl⟩
  exact ((Relation.ReflTransGen.single hintern).tail hpush).tail hset

/-- Edits that callers never make leave a blob that is encoded and not parsed back: an interned
empty name, and a record whose ordinal has no name. -/
theorem propertyBlob_lossy :
    (∃ blob data, (PropertyEdit.intern []).apply PropertyBlob.empty = .ok blob ∧
      blob.encode = .ok data ∧ PropertyBlob.parse data ≠ .ok blob) ∧
    ∃ pushed blob data,
      (PropertyEdit.push { kind := 0, name := [], records := [], name_lt := by decide }).apply
        PropertyBlob.empty = .ok pushed ∧
      (PropertyEdit.set 0 captionRecord).apply pushed = .ok blob ∧
      blob.encode = .ok data ∧ PropertyBlob.parse data ≠ .ok blob := by
  constructor
  · let blob : PropertyBlob := { PropertyBlob.empty with names := [[]] }
    obtain ⟨data, hdata⟩ := exists_ok (x := blob.encode) (by decide +kernel)
    refine ⟨blob, data, rfl, hdata, fun hparse => ?_⟩
    exact (parse_ok_iff.mp hparse).1.names [] (by simp [blob]) rfl
  · let pushed : PropertyBlob :=
      { PropertyBlob.empty with
        blocks := [{ kind := 0, name := [], records := [], name_lt := by decide }] }
    let blob : PropertyBlob :=
      { PropertyBlob.empty with
        blocks := [{ kind := 0, name := [], records := [captionRecord], name_lt := by decide }] }
    obtain ⟨data, hdata⟩ := exists_ok (x := blob.encode) (by decide +kernel)
    refine ⟨pushed, blob, data, rfl, rfl, hdata, fun hparse => ?_⟩
    have hrefers := (parse_ok_iff.mp hparse).1.refers _ (List.mem_singleton_self _) captionRecord
      (List.mem_singleton_self _)
    exact Nat.not_lt_zero _ hrefers

end Jet3
