import Jet3.Definition.Chain
import Jet3.Definition.Sections
import Jet3.Write.Error

/-!
# Lossless definition edits

A definition edit splits a table definition into the records and names it was decoded from. Records
and names are added, changed and removed; encoding the edit writes the sections back, with the
counts and the length they now have.

* `encode_new` says that an unchanged edit is encoded as the bytes of the chain it was read from.
-/

namespace Jet3

open Outcome

/-- The bytes of a record, and its name. -/
structure NamedRecord (n : ℕ) where
  record : Bytes n
  name : List UInt8
  deriving DecidableEq, Repr

/-- A definition taken apart for editing: every record keeps the bytes it was read with. -/
structure DefinitionEdit where
  header : Bytes definitionHeaderLen
  columns : List (NamedRecord columnRecordLen)
  physical : List (Bytes physicalPrefixLen × Bytes physicalRecordLen)
  indexes : List (NamedRecord logicalRecordLen)
  suffix : List UInt8
  deriving DecidableEq, Repr

/-- The stored form of a name. -/
def encodeName (name : List UInt8) : Except WriteError (List UInt8) := do
  refuseIf (¬name.length < 2 ^ 8) (.unsupported "definition name length")
  return Reader.nameBytes name

namespace DefinitionEdit

/-- Takes a decoded definition apart. -/
def new (table : TableDefinition) : DefinitionEdit :=
  { header := table.rawHeader
    columns := table.columns.map fun column => { record := column.rawRecord, name := column.name }
    physical := table.physicalIndexes.map fun index => (index.sourcedPrefix, index.rawRecord)
    indexes := table.indexes.map fun index => { record := index.rawRecord, name := index.name }
    suffix := table.rawSuffix }

/-- The header with the counts of the edited indexes. -/
def encodeHeader (edit : DefinitionEdit) : List UInt8 :=
  overwrite
    (overwrite edit.header.val logicalIndexCountField (leBytes 2 edit.indexes.length))
    physicalIndexCountField (leBytes 2 edit.physical.length)

/-- The sections of a definition, with the given stored names. -/
def sections (edit : DefinitionEdit) (columnNames indexNames : List (List UInt8)) : List UInt8 :=
  edit.encodeHeader ++
    (edit.physical.flatMap (fun index => index.1.val) ++
      (edit.columns.flatMap (fun column => column.record.val) ++
        (columnNames.flatten ++
          (edit.physical.flatMap (fun index => index.2.val) ++
            (edit.indexes.flatMap (fun index => index.record.val) ++
              (indexNames.flatten ++ (edit.suffix ++ terminator)))))))

/-- Puts the records together again, with counts and length of the header brought up to date. -/
def encode (edit : DefinitionEdit) : Except WriteError (List UInt8) := do
  refuseIf (¬edit.indexes.length < 2 ^ 16) (.unsupported "logical index count")
  refuseIf (¬edit.physical.length < 2 ^ 16) (.unsupported "physical index count")
  let columnNames ← edit.columns.mapM fun column => encodeName column.name
  let indexNames ← edit.indexes.mapM fun index => encodeName index.name
  let bytes := edit.sections columnNames indexNames
  refuseIf (¬bytes.length < 2 ^ 32) (.unsupported "definition length")
  return overwrite bytes 8 (leBytes 4 bytes.length)

/-! ## An unchanged edit -/

/-- A name is encoded where its length fits. -/
theorem encodeName_ok_iff {name bytes : List UInt8} :
    encodeName name = .ok bytes ↔ name.length < 2 ^ 8 ∧ Reader.nameBytes name = bytes := by
  simp only [encodeName, bind_ok_iff, exists_unit, refuseIf_ok_iff, not_not, pure_ok_iff]

/-- The header of a decoded definition already has the counts of its indexes. -/
theorem encodeHeader_new {table : TableDefinition}
    (hlogical : leAt table.rawHeader.val logicalIndexCountField 2 = table.indexes.length)
    (hphysical : leAt table.rawHeader.val physicalIndexCountField 2 =
      table.physicalIndexes.length) : (new table).encodeHeader = table.rawHeader.val := by
  have hlength : table.rawHeader.val.length = definitionHeaderLen := table.rawHeader.property
  have hfields : logicalIndexCountField + 2 ≤ definitionHeaderLen ∧
      physicalIndexCountField + 2 ≤ definitionHeaderLen := by decide
  have hlogicalField := leBytes_leAt (hlength ▸ hfields.1)
  have hphysicalField := leBytes_leAt (hlength ▸ hfields.2)
  rw [hlogical] at hlogicalField
  rw [hphysical] at hphysicalField
  have hlogicalSelf : overwrite table.rawHeader.val logicalIndexCountField
      (leBytes 2 table.indexes.length) = table.rawHeader.val :=
    overwrite_self (by rw [length_leBytes, hlogicalField])
  simp only [encodeHeader, new, List.length_map]
  rw [hlogicalSelf, overwrite_self (by rw [length_leBytes, hphysicalField])]

/-- The sections of an unchanged edit are those of the definition. -/
theorem sections_new {table : TableDefinition}
    (hlogical : leAt table.rawHeader.val logicalIndexCountField 2 = table.indexes.length)
    (hphysical : leAt table.rawHeader.val physicalIndexCountField 2 =
      table.physicalIndexes.length) :
    (new table).sections (table.columns.map fun column => Reader.nameBytes column.name)
      (table.indexes.map fun index => Reader.nameBytes index.name) = table.bytes := by
  rw [sections, encodeHeader_new hlogical hphysical]
  simp only [new, TableDefinition.bytes, List.flatMap_def, List.map_map]
  rfl

/-- A definition whose header holds its counts and its length is encoded as its own bytes. -/
theorem encode_new_of_fields {table : TableDefinition}
    (hlogical : leAt table.rawHeader.val logicalIndexCountField 2 = table.indexes.length)
    (hphysical : leAt table.rawHeader.val physicalIndexCountField 2 = table.physicalIndexes.length)
    (hcolumnNames : ∀ column ∈ table.columns, column.name.length < 256)
    (hindexNames : ∀ index ∈ table.indexes, index.name.length < 256)
    (hlength : table.bytes.length < 2 ^ 32)
    (hfield : (table.bytes.drop 8).take 4 = leBytes 4 table.bytes.length) :
    (new table).encode = .ok table.bytes := by
  simp only [encode, bind_ok_iff, exists_unit, refuseIf_ok_iff, not_not, pure_ok_iff]
  refine ⟨?_, ?_, _, mapM_map_eq_ok (g := fun column => Reader.nameBytes column.name) ?_, _,
    mapM_map_eq_ok (g := fun index => Reader.nameBytes index.name) ?_, ?_, ?_⟩
  · rw [new, List.length_map, ← hlogical]
    exact leAt_lt _ _ _
  · rw [new, List.length_map, ← hphysical]
    exact leAt_lt _ _ _
  · exact fun column hcolumn => encodeName_ok_iff.mpr ⟨hcolumnNames column hcolumn, rfl⟩
  · exact fun index hindex => encodeName_ok_iff.mpr ⟨hindexNames index hindex, rfl⟩
  · rwa [sections_new hlogical hphysical]
  · rw [sections_new hlogical hphysical]
    exact overwrite_self (by rw [length_leBytes, hfield])

/-- Splitting a definition and encoding it without changes reproduces the bytes of its chain. -/
theorem encode_new {file : PageFile} {root : PageNumber} {table : TableDefinition}
    (h : tableDefinition file root = .ok table) :
    ∃ bytes maps, readDefinitionChain file root = .ok (bytes, maps, table.pages) ∧
      (new table).encode = .ok bytes := by
  simp only [tableDefinition, bind_ok_iff, Prod.exists, pure_ok_iff] at h
  obtain ⟨bytes, maps, pages, hchain, definition, hdecode, _, -, rfl⟩ := h
  obtain ⟨first, used, terminal, hpages, -⟩ := readDefinitionChain_ok_iff.mp hchain
  obtain ⟨rfl, hlogical, hphysical, hcolumnNames, hindexNames⟩ := decodeDefinition_bytes hdecode
  refine ⟨_, maps, hchain, ?_⟩
  have hfields := encode_new_of_fields hlogical hphysical hcolumnNames hindexNames hpages.length_lt
    hpages.length_field
  exact hfields

end DefinitionEdit

end Jet3
