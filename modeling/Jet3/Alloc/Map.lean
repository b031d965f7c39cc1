import Jet3.Format.DataPageDirectory
import Jet3.Format.PageFile

/-!
# Allocation-map records

The two forms of an allocation-map record: a type-0 record is a starting page and an inline bitmap,
a type-1 record is a list of four-byte references to bitmap pages.
-/

namespace Jet3

open Outcome

/-- The record of a map whose bits are in its row. -/
def inlineRecordType : UInt8 := 0
/-- The record of a map whose row lists bitmap pages. -/
def indirectRecordType : UInt8 := 1
/-- An inline record starts with its type and its first page. -/
def inlineHeaderLen : ℕ := 5
/-- The bytes of one reference of an indirect record. -/
def indirectReferenceLen : ℕ := 4
/-- The bits of a bitmap page start behind its tag. -/
def extendedBitmapOffset : ℕ := 4

/-- The number of pages one extended bitmap page represents. -/
def extendedBitmapBits : ℕ := (pageBytes - extendedBitmapOffset) * 8

/-- The references of a mutable indirect record. -/
def indirectReferenceSlots : ℕ := 33

/-- The row of an indirect map. -/
def indirectRowBytes : ℕ := 1 + 4 * indirectReferenceSlots

/-- What is wrong with the record of a map. -/
inductive AllocationMapError where
  | emptyRecord
  | inlineRecordTooShort (actualLen : ℕ)
  | indirectPayloadMisaligned (payloadLen : ℕ)
  | unsupportedRecordType (recordType : UInt8)
  | arithmetic (source : Error)
  deriving DecidableEq, Repr

/-- Where a map record has its bits: in its own row, or on the pages it lists. -/
inductive AllocationMapLayout where
  | inline (startPage : PageNumber) (bitmap : Range)
  | indirect (references : Range)
  deriving DecidableEq, Repr

/-- `decode_allocation_map_layout`. -/
def decodeAllocationMapLayout (record : List UInt8) :
    Except AllocationMapError AllocationMapLayout :=
  match record with
  | [] => .error .emptyRecord
  | recordType :: payload =>
    if recordType = inlineRecordType then
      if record.length < inlineHeaderLen then .error (.inlineRecordTooShort record.length)
      else .ok (.inline (leValue (payload.take 4))
        { start := inlineHeaderLen, stop := record.length })
    else if recordType = indirectRecordType then
      if payload.length % indirectReferenceLen ≠ 0 then
        .error (.indirectPayloadMisaligned payload.length)
      else .ok (.indirect { start := 1, stop := record.length })
    else .error (.unsupportedRecordType recordType)

/-- A record decodes to the inline form exactly when it starts with the inline type and holds a
complete header. -/
theorem decodeAllocationMapLayout_inline {record : List UInt8} {startPage : PageNumber}
    {bitmap : Range} :
    decodeAllocationMapLayout record = .ok (.inline startPage bitmap) ↔
      record.head? = some inlineRecordType ∧ inlineHeaderLen ≤ record.length ∧
        startPage = leValue ((record.drop 1).take 4) ∧
        bitmap = { start := inlineHeaderLen, stop := record.length } := by
  rcases record with _ | ⟨recordType, payload⟩
  · simp [decodeAllocationMapLayout]
  · simp only [decodeAllocationMapLayout, List.head?_cons, Option.some.injEq, List.drop_succ_cons,
      List.drop_zero]
    by_cases hinline : recordType = inlineRecordType
    · rw [if_pos hinline]
      simp only [ite_error_ok_iff, not_lt, Except.ok.injEq, AllocationMapLayout.inline.injEq,
        hinline, true_and, eq_comm (a := startPage), eq_comm (a := bitmap)]
    · rw [if_neg hinline]
      simp [hinline]
      split_ifs <;> simp

/-- A record decodes to the indirect form exactly when it starts with the indirect type and holds
complete references. -/
theorem decodeAllocationMapLayout_indirect {record : List UInt8} {references : Range} :
    decodeAllocationMapLayout record = .ok (.indirect references) ↔
      record.head? = some indirectRecordType ∧ (record.length - 1) % indirectReferenceLen = 0 ∧
        references = { start := 1, stop := record.length } := by
  rcases record with _ | ⟨recordType, payload⟩
  · simp [decodeAllocationMapLayout]
  · simp only [decodeAllocationMapLayout, List.head?_cons, Option.some.injEq, List.length_cons,
      Nat.add_sub_cancel]
    by_cases hindirect : recordType = indirectRecordType
    · have hinline : recordType ≠ inlineRecordType := by
        rw [hindirect]
        decide
      rw [if_neg hinline, if_pos hindirect]
      simp only [ne_eq, ite_error_ok_iff, not_not, Except.ok.injEq,
        AllocationMapLayout.indirect.injEq, hindirect, true_and, eq_comm (a := references)]
    · rw [if_neg hindirect]
      simp [hindirect]
      split_ifs <;> simp

end Jet3
