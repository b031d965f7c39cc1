import Jet3.Format.Text
import Jet3.Index.Key.LocaleText

/-!
# The weights of the General order

The weights of the General sort order are a table of the source. What proofs use of it is evaluated
once, in `weighted`.
-/

namespace Jet3

/-- Only capital letters have another lower case. -/
theorem LocaleText.asciiLowercase_cases (byte : UInt8) : asciiLowercase byte = byte ∨
    ∃ n < 26, byte = UInt8.ofNat (0x41 + n) ∧ asciiLowercase byte = UInt8.ofNat (0x61 + n) := by
  unfold asciiLowercase
  split_ifs with hcapital
  · rw [UInt8.le_iff_toNat_le, UInt8.le_iff_toNat_le] at hcapital
    obtain ⟨hge, hle⟩ : 0x41 ≤ byte.toNat ∧ byte.toNat ≤ 0x5a := hcapital
    have hbyte : byte = UInt8.ofNat (0x41 + (byte.toNat - 0x41)) := by
      rw [Nat.add_sub_cancel' hge, UInt8.ofNat_toNat]
    refine .inr ⟨byte.toNat - 0x41, by omega, hbyte, ?_⟩
    rw [← UInt8.toNat_inj, UInt8.toNat_add, UInt8.toNat_ofNat_of_lt' (by
      change _ < 256
      omega)]
    change (byte.toNat + 0x20) % 256 = _
    omega
  · exact .inl rfl

namespace Text

/-- No ASCII byte carries an accent. -/
theorem accent_of_ascii {byte : UInt8} (h : byte < 0x80) : accent byte = none := by
  have hextended {bytes : List UInt8} (hall : bytes.all (0x80 ≤ ·) = true) : byte ∉ bytes :=
    fun hmem => absurd h (UInt8.not_lt.mpr (of_decide_eq_true (List.all_eq_true.mp hall byte hmem)))
  unfold accent
  iterate 8 rw [if_neg (hextended (by decide))]

/-- The plain byte of a weight, in lower case: the lower-case letters stand before the others. -/
def plainOf (weight : ℕ) : ℕ :=
  let weights := (TextWeights.primary.drop 0x5b).take 36 ++ (TextWeights.primary.drop 0x20).take 59
  let position := weights.idxOf weight
  if position < 36 then position + 0x5b else position - 36 + 0x20

/-- What proofs read off the table: all characters have a weight, the plain ones one of a single
byte; no byte of a weight is a nibble; capital letters weigh what their small ones do, and a plain
byte is told up to case by its weight. -/
structure Weighted : Prop where
  length : TextWeights.primary.length = 256
  ascii : ∀ weight ∈ TextWeights.primary.take 128, weight ≠ 0
  mapped : ∀ pair ∈ cp1252.zip (TextWeights.primary.drop 128),
    pair.1 ≠ undefinedScalar → pair.2 ≠ 0
  plain : ∀ weight ∈ (TextWeights.primary.drop 32).take 95,
    weightBytes weight = [UInt8.ofNat weight] ∧ weight < 256
  ge : ∀ value ∈ TextWeights.primary, ∀ weight ∈ weightBytes value, 16 ≤ weight
  letters : ∀ n < 26, primary (UInt8.ofNat (0x61 + n)) = primary (UInt8.ofNat (0x41 + n))
  lower : ∀ n < 127, 32 ≤ n → plainOf (TextWeights.primary.getD n 0) =
    (LocaleText.asciiLowercase (UInt8.ofNat n)).toNat

theorem weighted : Weighted where
  length := by decide +kernel
  ascii := by decide +kernel
  mapped := by decide +kernel
  plain := by decide +kernel
  ge := by decide +kernel
  letters := by decide +kernel
  lower := by decide +kernel

end Text

end Jet3
