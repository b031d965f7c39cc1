import Jet3.Library.Chunks
import Jet3.Library.Reader
import Jet3.Row.Directory
import Mathlib.Data.Nat.Bitwise

/-!
# Encoding long values

A long value is a twelve-byte header, followed by the payload when it is stored inline. The header's
control word holds the payload length and one storage flag; an external header also holds the
locator of the first payload row. A single-page row is the payload; a chained row is the locator of
the next row, zero at the end of the chain, and a fragment of the payload.

* `encodeInlineLongValue`, `externalLongValueHeader` and `encodeChainedRow` write these;
* `decodeLocator_encodeLocator` and `encodeLocator_ok_iff` are the round trip of a locator.
-/

namespace Jet3

open Outcome

/-- The longest row a page stores. -/
def maxStoredRowLen : ℕ := pageBytes - directoryOffset - entryLen

/-- The observed storage form of an external long value. -/
inductive ExternalLongValueStorage where
  | singlePage
  | chained
  deriving DecidableEq, Repr

namespace LongValue

/-- The bytes a row stores of a long value besides an inline payload. -/
def headerLen : ℕ := 12
/-- A chained fragment starts with the locator of the next one. -/
def chainPointerLen : ℕ := 4
/-- The longest payload in one row. -/
def maxSinglePagePayload : ℕ := maxStoredRowLen
/-- The longest fragment of a chain. -/
def maxChainedFragment : ℕ := maxStoredRowLen - chainPointerLen
/-- The header has three bytes for the length. -/
def maxDeclaredLength : ℕ := 0x00ffffff
/-- A locator has three bytes for the page. -/
def maxLocatorPage : ℕ := 0x00ffffff
/-- The payload follows its header. -/
def inlineFlag : ℕ := 0x80000000
/-- The payload is one row of another page. -/
def singlePageFlag : ℕ := 0x40000000
/-- The payload is a chain of fragments. -/
def chainedFlag : ℕ := 0

end LongValue

open LongValue

/-- Why a payload cannot be written. -/
inductive LongValueWriteError where
  | payloadTooLong (length maximum : ℕ)
  | emptyRow
  | fragmentTooLong (length maximum : ℕ)
  | locatorNotRepresentable (locator : RowLocator)
  | nullTarget
  | outputTooSmall (needed available : ℕ)
  deriving DecidableEq, Repr

namespace LongValue

/-- `control_word`: the 24-bit length plus one flag. -/
def controlWord (length flag maximum : ℕ) : Except LongValueWriteError ℕ := do
  refuseIf (length > maximum) (.payloadTooLong length maximum)
  return flag ||| length

/-- `is_null`. -/
def isNull (locator : RowLocator) : Bool :=
  locator.page = 0 && locator.slot = 0

/-- `encode_locator`: the slot, then the page in three bytes. -/
def encodeLocator (locator : RowLocator) : Except LongValueWriteError (List UInt8) := do
  refuseIf (locator.page > maxLocatorPage) (.locatorNotRepresentable locator)
  return locator.slot :: leBytes 3 locator.page

/-- `decode_locator`. -/
def decodeLocator (raw : List UInt8) : RowLocator :=
  { page := leAt raw 1 3, slot := byteAt raw 0 }

end LongValue

/-- `encode_inline_long_value` into an output of the given size. -/
def encodeInlineLongValue (payload : List UInt8) (available : ℕ) :
    Except LongValueWriteError (List UInt8) := do
  let control ← controlWord payload.length inlineFlag maxDeclaredLength
  refuseIf (available < headerLen + payload.length)
    (.outputTooSmall (headerLen + payload.length) available)
  return leBytes 4 control ++ (List.replicate 8 0 ++ payload)

/-- The flag of a storage form and the longest payload it holds. -/
def ExternalLongValueStorage.flagAndMaximum : ExternalLongValueStorage → ℕ × ℕ
  | singlePage => (singlePageFlag, maxSinglePagePayload)
  | chained => (chainedFlag, maxDeclaredLength)

/-- `external_long_value_header`. -/
def externalLongValueHeader (length : ℕ) (storage : ExternalLongValueStorage)
    (target : RowLocator) :
    Except LongValueWriteError (List UInt8) := do
  -- every external row holds at least one byte
  refuseIf (length = 0) .emptyRow
  let control ← controlWord length storage.flagAndMaximum.1 storage.flagAndMaximum.2
  refuseIf (isNull target = true) .nullTarget
  let locator ← encodeLocator target
  return leBytes 4 control ++ (locator ++ List.replicate 4 0)

/-- `chained_fragments`. -/
def chainedFragments (payload : List UInt8) : List (List UInt8) :=
  chunks maxChainedFragment payload

/-- The pointer a chained row begins with. -/
def chainPointer : Option RowLocator → Except LongValueWriteError (List UInt8)
  | none => .ok (List.replicate chainPointerLen 0)
  | some locator =>
    -- the null locator ends the chain
    if isNull locator then .error .nullTarget else encodeLocator locator

/-- `encode_chained_row` into an output of the given size. -/
def encodeChainedRow (fragment : List UInt8) (next : Option RowLocator) (available : ℕ) :
    Except LongValueWriteError (List UInt8) := do
  refuseIf (fragment = []) .emptyRow
  refuseIf (fragment.length > maxChainedFragment)
    (.fragmentTooLong fragment.length maxChainedFragment)
  let pointer ← chainPointer next
  refuseIf (available < chainPointerLen + fragment.length)
    (.outputTooSmall (chainPointerLen + fragment.length) available)
  return pointer ++ fragment

/-! ## What is written -/

namespace LongValue

variable {locator : RowLocator} {bytes : List UInt8}

/-- A locator is written where its page fits. -/
@[simp]
theorem encodeLocator_ok_iff :
    encodeLocator locator = .ok bytes ↔
      locator.page ≤ maxLocatorPage ∧ bytes = locator.slot :: leBytes 3 locator.page := by
  simp only [encodeLocator, bind_ok_iff, exists_unit, refuseIf_ok_iff, pure_ok_iff, gt_iff_lt,
    not_lt, eq_comm (a := bytes)]

/-- A stored locator has its full length. -/
theorem length_of_encodeLocator (h : encodeLocator locator = .ok bytes) :
    bytes.length = chainPointerLen := by
  obtain ⟨-, rfl⟩ := encodeLocator_ok_iff.mp h
  rw [List.length_cons, length_leBytes]
  rfl

/-- A locator is read back from its bytes. -/
theorem decodeLocator_encodeLocator (h : encodeLocator locator = .ok bytes) :
    decodeLocator bytes = locator := by
  obtain ⟨hpage, rfl⟩ := encodeLocator_ok_iff.mp h
  have hread : leAt (locator.slot :: leBytes 3 locator.page) 1 3 = locator.page := by
    rw [leAt, List.drop_one, List.tail_cons, List.take_of_length_le (length_leBytes 3 _).le]
    exact leValue_leBytes_of_lt (lt_of_le_of_lt hpage (by decide))
  rw [decodeLocator, hread]
  rfl

/-- Only the null locator is written as zeros. -/
theorem encodeLocator_ne_zero (h : encodeLocator locator = .ok bytes)
    (hnull : isNull locator = false) :
    bytes ≠ List.replicate chainPointerLen 0 := by
  rintro rfl
  have hlocator := decodeLocator_encodeLocator h
  rw [← hlocator] at hnull
  exact absurd hnull (by decide)

/-- The flag and the length of a control word are told apart. -/
theorem controlWord_ok_iff {length flag maximum control : ℕ}
    (hmaximum : maximum ≤ maxDeclaredLength)
    (hflag : 2 ^ 24 ∣ flag) :
    controlWord length flag maximum = .ok control ↔
      length ≤ maximum ∧ control = flag + length := by
  simp only [controlWord, bind_ok_iff, exists_unit, refuseIf_ok_iff, pure_ok_iff, gt_iff_lt, not_lt,
    eq_comm (a := control)]
  refine and_congr_right fun hle => ?_
  obtain ⟨high, rfl⟩ := hflag
  have hdeclared : maxDeclaredLength = 2 ^ 24 - 1 := rfl
  rw [← Nat.two_pow_add_eq_or_of_lt (show length < 2 ^ 24 by omega)]

end LongValue

/-- An inline value is its header and the payload. -/
@[simp]
theorem encodeInlineLongValue_ok_iff {payload bytes : List UInt8} {available : ℕ} :
    encodeInlineLongValue payload available = .ok bytes ↔
      payload.length ≤ maxDeclaredLength ∧ headerLen + payload.length ≤ available ∧
        bytes = leBytes 4 (inlineFlag + payload.length) ++ (List.replicate 8 0 ++ payload) := by
  simp only [encodeInlineLongValue, bind_ok_iff, exists_unit, refuseIf_ok_iff, pure_ok_iff, not_lt,
    controlWord_ok_iff le_rfl (show 2 ^ 24 ∣ inlineFlag by decide), eq_comm (a := bytes)]
  constructor
  · rintro ⟨_, ⟨hlength, rfl⟩, hroom, rfl⟩
    exact ⟨hlength, hroom, rfl⟩
  · rintro ⟨hlength, hroom, rfl⟩
    exact ⟨_, ⟨hlength, rfl⟩, hroom, rfl⟩

theorem ExternalLongValueStorage.maximum_le (storage : ExternalLongValueStorage) :
    storage.flagAndMaximum.2 ≤ maxDeclaredLength := by
  cases storage <;> decide

theorem ExternalLongValueStorage.dvd_flag (storage : ExternalLongValueStorage) :
    2 ^ 24 ∣ storage.flagAndMaximum.1 := by
  cases storage <;> decide

/-- The header of a payload that is stored elsewhere. -/
@[simp]
theorem externalLongValueHeader_ok_iff {length : ℕ} {storage : ExternalLongValueStorage}
    {target : RowLocator} {bytes : List UInt8} :
    externalLongValueHeader length storage target = .ok bytes ↔
      length ≠ 0 ∧ length ≤ storage.flagAndMaximum.2 ∧ isNull target = false ∧
        target.page ≤ maxLocatorPage ∧
        bytes = leBytes 4 (storage.flagAndMaximum.1 + length) ++
          ((target.slot :: leBytes 3 target.page) ++ List.replicate 4 0) := by
  simp only [externalLongValueHeader, bind_ok_iff, exists_unit, refuseIf_ok_iff, pure_ok_iff,
    controlWord_ok_iff storage.maximum_le storage.dvd_flag, Bool.not_eq_true, encodeLocator_ok_iff,
    eq_comm (a := bytes)]
  constructor
  · rintro ⟨hne, _, ⟨hlength, rfl⟩, hnull, _, ⟨hpage, rfl⟩, rfl⟩
    exact ⟨hne, hlength, hnull, hpage, rfl⟩
  · rintro ⟨hne, hlength, hnull, hpage, rfl⟩
    exact ⟨hne, _, ⟨hlength, rfl⟩, hnull, _, ⟨hpage, rfl⟩, rfl⟩

/-- A fragment behind the pointer to the next one. -/
@[simp]
theorem encodeChainedRow_ok_iff {fragment bytes : List UInt8} {next : Option RowLocator}
    {available : ℕ} :
    encodeChainedRow fragment next available = .ok bytes ↔
      fragment ≠ [] ∧ fragment.length ≤ maxChainedFragment ∧
        chainPointerLen + fragment.length ≤ available ∧
        ∃ pointer, chainPointer next = .ok pointer ∧ bytes = pointer ++ fragment := by
  simp only [encodeChainedRow, bind_ok_iff, exists_unit, refuseIf_ok_iff, pure_ok_iff, gt_iff_lt,
    not_lt, eq_comm (a := bytes)]
  constructor
  · rintro ⟨hne, hlength, pointer, hpointer, hroom, rfl⟩
    exact ⟨hne, hlength, hroom, pointer, hpointer, rfl⟩
  · rintro ⟨hne, hlength, hroom, pointer, hpointer, rfl⟩
    exact ⟨hne, hlength, pointer, hpointer, hroom, rfl⟩

end Jet3
