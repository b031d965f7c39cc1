import Jet3.Format.Text
import Jet3.Library.Outcome

/-!
# Decoding text

Text that is stored in a single-byte code page, with the characters its bytes stand for. Decoding
refuses a byte the code page does not assign.
-/

namespace Jet3

open Outcome

/-- A byte that a code page leaves undefined. -/
inductive TextError where
  | undefinedByte (codePage : TextCodePage) (index : ℕ) (byte : UInt8)
  deriving DecidableEq, Repr

/-- Decoded text; it retains the bytes it was decoded from. -/
structure DecodedText where
  raw : List UInt8
  text : List ℕ
  codePage : TextCodePage
  deriving DecidableEq, Repr

/-- `decode_text`. -/
def decodeText (raw : List UInt8) (codePage : TextCodePage) : Except TextError DecodedText := do
  let text ← raw.zipIdx.mapM fun entry =>
    okOr (mappedCharacter codePage entry.1) (.undefinedByte codePage entry.2 entry.1)
  return { raw, text, codePage }

/-- Every byte of a text has a character. -/
def Mapped (codePage : TextCodePage) (raw : List UInt8) : Prop :=
  ∀ byte ∈ raw, (mappedCharacter codePage byte).isSome = true

instance (codePage : TextCodePage) (raw : List UInt8) : Decidable (Mapped codePage raw) :=
  inferInstanceAs (Decidable (∀ byte ∈ raw, _))

/-- A decoded text keeps its bytes. -/
theorem raw_of_decodeText {raw : List UInt8} {codePage : TextCodePage} {text : DecodedText}
    (h : decodeText raw codePage = .ok text) : text.raw = raw := by
  simp only [decodeText, bind_ok_iff, pure_ok_iff] at h
  obtain ⟨_, -, rfl⟩ := h
  rfl

/-- Text decodes exactly where all its bytes are mapped. -/
theorem exists_decodeText_iff {raw : List UInt8} {codePage : TextCodePage} :
    (∃ text, decodeText raw codePage = .ok text) ↔ Mapped codePage raw := by
  have hcharacters : (∃ text, decodeText raw codePage = .ok text) ↔
      ∃ characters, raw.zipIdx.mapM (fun entry => okOr (mappedCharacter codePage entry.1)
        (.undefinedByte codePage entry.2 entry.1 : TextError)) = .ok characters := by
    simp only [decodeText, bind_ok_iff, pure_ok_iff]
    constructor
    · rintro ⟨_, characters, h, -⟩
      exact ⟨characters, h⟩
    · rintro ⟨characters, h⟩
      exact ⟨_, characters, h, rfl⟩
  rw [hcharacters, exists_mapM_ok_iff]
  simp only [okOr_ok_iff, ← Option.isSome_iff_exists]
  constructor
  · intro h byte hbyte
    obtain ⟨index, hindex⟩ := List.mem_iff_getElem?.mp hbyte
    exact h (byte, index) (List.mk_mem_zipIdx_iff_getElem?.mpr hindex)
  · intro h entry hentry
    exact h entry.1 (List.fst_mem_of_mem_zipIdx hentry)

end Jet3
