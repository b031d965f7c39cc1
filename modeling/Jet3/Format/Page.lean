import Jet3.Library.Bytes
import Jet3.Library.Outcome

/-!
# Pages and checked page writes

Jet 3 files are sequences of 2,048-byte pages. A page is a `Block` of that size, and a page image
under construction is the same block: `PageImage::write_at` is the only way its bytes change.

The resource budget of the source only refuses: every charge either fails the whole call or leaves
its result unchanged. The development follows the calls whose charges all succeed.
-/

namespace Jet3

/-- The size of a Jet 3 page. -/
def pageBytes : ℕ := 2048

/-- A zero-based page index. -/
abbrev PageNumber : Type := ℕ

/-- The complete bytes of one page. -/
abbrev Page : Type := Block pageBytes

/-- The format-neutral failures the modelled functions return. -/
inductive Error where
  | arithmetic (operation : String)
  | integerConversion (value : ℕ) (target : String)
  | outputOffsetOutOfBounds (offset capacity : ℕ)
  | outputCapacityExceeded (offset needed available : ℕ)
  | pageOutOfBounds (page pageCount : ℕ)
  | unexpectedEnd (offset needed available : ℕ)
  deriving DecidableEq, Repr

/-- `PageImage::write_at`: an all-or-nothing write at a page-local offset. -/
def writeAt (image : Page) (offset : ℕ) (bytes : List UInt8) : Except Error Page :=
  if offset > pageBytes then .error (.outputOffsetOutOfBounds offset pageBytes)
  else if offset + bytes.length > pageBytes then
    .error (.outputCapacityExceeded offset bytes.length (pageBytes - offset))
  else .ok (image.write offset bytes)

/-- A checked write succeeds exactly when its range fits the page. -/
@[simp]
theorem writeAt_ok_iff {image image' : Page} {offset : ℕ} {bytes : List UInt8} :
    writeAt image offset bytes = .ok image' ↔
      offset + bytes.length ≤ pageBytes ∧ image' = image.write offset bytes := by
  simp only [writeAt, Outcome.ite_error_ok_iff, Except.ok.injEq, eq_comm (a := image')]
  constructor
  · rintro ⟨-, h, rfl⟩
    exact ⟨by omega, rfl⟩
  · rintro ⟨h, rfl⟩
    exact ⟨by omega, by omega, rfl⟩

/-- `u16::from_le_bytes` of the two bytes at `offset`. -/
def u16At (page : Page) (offset : ℕ) : ℕ :=
  page.le offset 2

/-- `u32::from_le_bytes` of the four bytes at `offset`. -/
def u32At (page : Page) (offset : ℕ) : ℕ :=
  page.le offset 4

theorem u16At_lt (page : Page) (offset : ℕ) : u16At page offset < 65536 :=
  page.le_lt offset 2

/-- `u16::try_from`. -/
def toU16 (value : ℕ) : Option ℕ :=
  if value < 65536 then some value else none

@[simp]
theorem toU16_eq_some {value word : ℕ} :
    toU16 value = some word ↔ value < 65536 ∧ value = word := by
  unfold toU16
  split <;> simp [*]

/-- `usize::checked_sub`. -/
def checkedSub (a b : ℕ) : Option ℕ :=
  if b ≤ a then some (a - b) else none

@[simp]
theorem checkedSub_eq_some {a b c : ℕ} : checkedSub a b = some c ↔ b ≤ a ∧ a - b = c := by
  unfold checkedSub
  split <;> simp [*]

end Jet3
