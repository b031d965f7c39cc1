import Jet3.Alloc.Map
import Jet3.Library.Bitmap

/-!
# Encoding allocation maps

The encoders of the three parts of an allocation map: an inline type-0 record, a type-1 row of
references, and a complete bitmap page for one slot of such a row. What a set bit means is left to
the caller, and no page is chosen here.

* `InlineUsageMapEncoder` and `ExtendedUsageMapEncoder` collect set bits, `setPages_eq` says which
  bits a run of `setPage` calls leaves;
* `encodeIndirectReferences` writes a row of references.
-/

namespace Jet3

open Outcome

/-- Why a page cannot be put into an encoded map. -/
inductive UsageMapWriteError where
  | pageOutOfMap (page first : PageNumber) (pageCount : ℕ)
  | pageNotRepresentable (page : PageNumber)
  | encoding (source : Error)
  deriving DecidableEq, Repr

/-- A writer into a buffer of a fixed length: what it has written, and the part of the buffer after
its position. -/
structure BinaryWriter where
  written : List UInt8
  rest : List UInt8

namespace BinaryWriter

/-- A writer that has written nothing. -/
def new (output : List UInt8) : BinaryWriter :=
  { written := [], rest := output }

/-- Writes all of the bytes, or none where they do not fit. -/
def writeExact (writer : BinaryWriter) (bytes : List UInt8) :
    Except UsageMapWriteError BinaryWriter := do
  refuseIf (bytes.length > writer.rest.length)
    (.encoding (.outputCapacityExceeded writer.written.length bytes.length writer.rest.length))
  return { written := writer.written ++ bytes, rest := writer.rest.drop bytes.length }

/-- The buffer after the writes. -/
def output (writer : BinaryWriter) : List UInt8 :=
  writer.written ++ writer.rest

/-- All bytes are written where they fit. -/
theorem writeExact_ok_iff {writer next : BinaryWriter} {bytes : List UInt8} :
    writer.writeExact bytes = .ok next ↔ bytes.length ≤ writer.rest.length ∧
      next = { written := writer.written ++ bytes, rest := writer.rest.drop bytes.length } := by
  simp only [writeExact, bind_ok_iff, exists_unit, refuseIf_ok_iff, gt_iff_lt, not_lt, pure_ok_iff,
    eq_comm (a := next)]

end BinaryWriter

/-- `bit_location`: the byte of a page in a map and its mask, low-order bit first. -/
def bitLocation (page first : PageNumber) (pageCount : ℕ) :
    Except UsageMapWriteError (ℕ × UInt8) := do
  let relative ← okOr ((checkedSub page first).filter (· < pageCount))
    (.pageOutOfMap page first pageCount)
  return (relative / 8, Bitmap.mask (relative % 8))

/-- Sets or clears the bits of a mask. -/
def writeBit (target mask : UInt8) (set : Bool) : UInt8 :=
  if set then target ||| mask else target &&& ~~~mask

/-- The byte and the mask of a page, where the map has it. -/
theorem bitLocation_ok_iff {page first : PageNumber} {pageCount : ℕ} {location : ℕ × UInt8} :
    bitLocation page first pageCount = .ok location ↔ first ≤ page ∧ page - first < pageCount ∧
      location = ((page - first) / 8, Bitmap.mask ((page - first) % 8)) := by
  simp only [bitLocation, bind_ok_iff, okOr_ok_iff, Option.filter_eq_some_iff, checkedSub_eq_some,
    decide_eq_true_iff, pure_ok_iff]
  constructor
  · rintro ⟨_, ⟨⟨hle, rfl⟩, hlt⟩, rfl⟩
    exact ⟨hle, hlt, rfl⟩
  · rintro ⟨hle, hlt, rfl⟩
    exact ⟨_, ⟨⟨hle, rfl⟩, hlt⟩, rfl⟩

/-- Writing one bit of a byte is changing one member of the bitmap. -/
theorem modify_writeBit (bitmap : List UInt8) (n : ℕ) (set : Bool) :
    (bitmap.modify (n / 8) fun target => writeBit target (Bitmap.mask (n % 8)) set) =
      Bitmap.put bitmap n set :=
  rfl

/-! ## Inline records -/

/-- The encoder of a row that holds its own bits. -/
structure InlineUsageMapEncoder where
  startPage : PageNumber
  bitmap : List UInt8
  deriving DecidableEq, Repr

namespace InlineUsageMapEncoder

/-- An all-clear map of `bitmapLen` bytes that begins at `startPage`. -/
def new (startPage : PageNumber) (bitmapLen : ℕ) :
    Except UsageMapWriteError InlineUsageMapEncoder := do
  refuseIf (¬startPage < 2 ^ 32) (.pageNotRepresentable startPage)
  return { startPage, bitmap := List.replicate bitmapLen 0 }

/-- The number of pages the bitmap represents. -/
def pageCount (encoder : InlineUsageMapEncoder) : ℕ :=
  encoder.bitmap.length * 8

/-- Sets the bit of a page, counted from the first page of the row. -/
def setPage (encoder : InlineUsageMapEncoder) (page : PageNumber) :
    Except UsageMapWriteError InlineUsageMapEncoder := do
  let (byte, mask) ← bitLocation page encoder.startPage encoder.pageCount
  refuseIf (¬byte < encoder.bitmap.length)
    (.encoding (.arithmetic "locate inline usage-map bitmap byte"))
  return { encoder with
    bitmap := encoder.bitmap.modify byte fun target => writeBit target mask true }

/-- `encode_into`: the record over the front of `output`. -/
def encodeInto (encoder : InlineUsageMapEncoder) (output : List UInt8) :
    Except UsageMapWriteError (List UInt8) := do
  let writer ← (BinaryWriter.new output).writeExact [inlineRecordType]
  let writer ← writer.writeExact (leBytes 4 encoder.startPage)
  let writer ← writer.writeExact encoder.bitmap
  return writer.output

/-- The encoder with the bit of the page, where the map has it. -/
theorem setPage_ok_iff {encoder encoder' : InlineUsageMapEncoder} {page : PageNumber} :
    encoder.setPage page = .ok encoder' ↔
      encoder.startPage ≤ page ∧ page - encoder.startPage < encoder.pageCount ∧
        encoder' =
          { encoder with bitmap := Bitmap.put encoder.bitmap (page - encoder.startPage) true } := by
  simp only [setPage, bind_ok_iff, exists_unit, bitLocation_ok_iff, refuseIf_ok_iff, pure_ok_iff,
    not_not]
  constructor
  · rintro ⟨_, ⟨hle, hlt, rfl⟩, -, rfl⟩
    exact ⟨hle, hlt, rfl⟩
  · rintro ⟨hle, hlt, rfl⟩
    refine ⟨_, ⟨hle, hlt, rfl⟩, ?_, rfl⟩
    rw [pageCount] at hlt
    exact Nat.div_lt_of_lt_mul (by rwa [Nat.mul_comm])

/-- A run of `setPage` calls on a map from page zero on sets the bits of its pages. -/
theorem setPages_eq {bitmap : List UInt8} {pages : List PageNumber}
    (h : ∀ page ∈ pages, page < bitmap.length * 8) :
    pages.foldlM setPage { startPage := 0, bitmap } =
      .ok { startPage := 0
            bitmap := pages.foldl (fun bitmap page => Bitmap.put bitmap page true) bitmap } := by
  induction pages generalizing bitmap with
  | nil => rfl
  | cons page pages ih =>
    obtain ⟨hpage, hpages⟩ := List.forall_mem_cons.mp h
    have hset : setPage { startPage := 0, bitmap } page =
        .ok { startPage := 0, bitmap := Bitmap.put bitmap page true } :=
      setPage_ok_iff.mpr ⟨Nat.zero_le _, hpage, rfl⟩
    rw [List.foldlM_cons, hset, List.foldl_cons]
    exact ih (by simpa using hpages)

/-- A record that fills its row exactly. -/
theorem encodeInto_ok {encoder : InlineUsageMapEncoder} {output : List UInt8}
    (hlength : output.length = inlineHeaderLen + encoder.bitmap.length) :
    encoder.encodeInto output =
      .ok (inlineRecordType :: leBytes 4 encoder.startPage ++ encoder.bitmap) := by
  have hheader : inlineHeaderLen = 5 := rfl
  simp only [encodeInto, bind_ok_iff, BinaryWriter.writeExact_ok_iff, pure_ok_iff, BinaryWriter.new]
  refine ⟨_, ⟨by simp; omega, rfl⟩, _, ⟨by simp; omega, rfl⟩, _, ⟨by simp; omega, rfl⟩, ?_⟩
  simp only [BinaryWriter.output, List.drop_drop, List.nil_append]
  rw [List.drop_of_length_le (by simp; omega), List.append_nil]
  rfl

end InlineUsageMapEncoder

/-! ## Bitmap pages -/

/-- A bitmap page under construction; `first` is the page its first bit stands for. -/
structure ExtendedUsageMapEncoder where
  first : PageNumber
  image : Page

namespace ExtendedUsageMapEncoder

/-- An all-clear bitmap page for the zero-based type-1 slot `slot`. -/
def new (slot : ℕ) : Except UsageMapWriteError ExtendedUsageMapEncoder := do
  refuseIf (¬slot * extendedBitmapBits < 2 ^ 64)
    (.encoding (.arithmetic "extended usage-map slot to first page multiplication"))
  let image ← (writeAt (PageKind.newImage .extendedUsageBitmap) 0 [5, 1, 0, 0]).mapError .encoding
  return { first := slot * extendedBitmapBits, image }

/-- Sets the bit of a page, counted from the first page of the slot. -/
def setPage (encoder : ExtendedUsageMapEncoder) (page : PageNumber) :
    Except UsageMapWriteError ExtendedUsageMapEncoder := do
  let (byte, mask) ← bitLocation page encoder.first extendedBitmapBits
  let index := byte + extendedBitmapOffset
  refuseIf (¬index < pageBytes) (.encoding (.arithmetic "locate extended usage-map bitmap byte"))
  let updated := writeBit (encoder.image.get index) mask true
  let image ← (writeAt encoder.image index [updated]).mapError .encoding
  return { encoder with image }

/-- The bitmap behind the header. -/
def bitmap (encoder : ExtendedUsageMapEncoder) : List UInt8 :=
  encoder.image.slice extendedBitmapOffset pageBytes

theorem length_bitmap (encoder : ExtendedUsageMapEncoder) :
    encoder.bitmap.length * 8 = extendedBitmapBits := by
  rw [bitmap, Block.length_slice]
  rfl

/-- A new bitmap page: its header and no set bit. -/
theorem new_ok {slot : ℕ} (h : slot * extendedBitmapBits < 2 ^ 64) :
    ∃ encoder, new slot = .ok encoder ∧ encoder.first = slot * extendedBitmapBits ∧
      encoder.image.slice 0 4 = [5, 1, 0, 0] ∧
      encoder.bitmap = List.replicate (pageBytes - extendedBitmapOffset) 0 := by
  simp only [new, bind_ok_iff, exists_unit, refuseIf_ok_iff, not_not, mapError_ok_iff,
    writeAt_ok_iff, pure_ok_iff]
  refine ⟨_, ⟨h, _, ⟨by decide, rfl⟩, rfl⟩, rfl, ?_, ?_⟩
  · exact Block.slice_write_self _ rfl (by decide)
  · rw [bitmap, Block.slice_write_of_disjoint _ (.inr (by decide)), PageKind.newImage,
      Block.slice_write_of_disjoint _ (.inr (by decide))]
    apply Block.slice_eq_of_getD (by simp)
    intro i hi
    have hinside : extendedBitmapOffset + i < pageBytes := Nat.add_lt_of_lt_sub' hi
    rw [Block.get_fill hinside, List.getD_eq_getElem?_getD, List.getElem?_replicate, if_pos hi]
    rfl

/-- Setting a bit changes that member of the bitmap and keeps the header. -/
theorem setPage_ok {encoder : ExtendedUsageMapEncoder} {page : PageNumber}
    (hfirst : encoder.first ≤ page) (hlast : page - encoder.first < extendedBitmapBits) :
    ∃ encoder', encoder.setPage page = .ok encoder' ∧ encoder'.first = encoder.first ∧
      encoder'.image.slice 0 4 = encoder.image.slice 0 4 ∧
      encoder'.bitmap = Bitmap.put encoder.bitmap (page - encoder.first) true := by
  have hbyte : (page - encoder.first) / 8 < pageBytes - extendedBitmapOffset :=
    Nat.div_lt_of_lt_mul (by rwa [Nat.mul_comm])
  have hinside : extendedBitmapOffset + (page - encoder.first) / 8 < pageBytes :=
    Nat.add_lt_of_lt_sub' hbyte
  simp only [setPage, bind_ok_iff, exists_unit, bitLocation_ok_iff, refuseIf_ok_iff, not_not,
    mapError_ok_iff, writeAt_ok_iff, pure_ok_iff]
  refine ⟨_, ⟨_, ⟨hfirst, hlast, rfl⟩, ?_, _, ⟨?_, rfl⟩, rfl⟩, rfl, ?_, ?_⟩
  · rw [Nat.add_comm]
    exact hinside
  · rw [Nat.add_comm _ extendedBitmapOffset]
    exact hinside
  · exact Block.slice_write_of_disjoint _ (.inl (Nat.le_add_left _ _))
  · rw [← modify_writeBit, Nat.add_comm _ extendedBitmapOffset]
    exact Block.slice_write_modify encoder.image
      (fun target => writeBit target (Bitmap.mask ((page - encoder.first) % 8)) true) hbyte le_rfl

end ExtendedUsageMapEncoder

/-! ## Rows of references -/

/-- `encode_indirect_references`: the row over the front of `output`. A zero reference is an unused
slot. -/
def encodeIndirectReferences (references : List PageNumber) (output : List UInt8) :
    Except UsageMapWriteError (List UInt8) := do
  let writer ← (BinaryWriter.new output).writeExact [indirectRecordType]
  let writer ← references.foldlM (fun writer page => do
    refuseIf (¬page < 2 ^ 32) (.pageNotRepresentable page)
    writer.writeExact (leBytes 4 page)) writer
  return writer.output

/-- A row of references that fills its buffer exactly. -/
theorem encodeIndirectReferences_ok {references : List PageNumber} {output : List UInt8}
    (hlength : output.length = 1 + 4 * references.length)
    (hwidth : ∀ page ∈ references, page < 2 ^ 32) :
    encodeIndirectReferences references output =
      .ok (indirectRecordType :: references.flatMap (leBytes 4)) := by
  have key : ∀ (references : List PageNumber) (writer : BinaryWriter),
      writer.rest.length = 4 * references.length → (∀ page ∈ references, page < 2 ^ 32) →
      references.foldlM (fun writer page => do
          refuseIf (¬page < 2 ^ 32) (UsageMapWriteError.pageNotRepresentable page)
          writer.writeExact (leBytes 4 page)) writer =
        .ok { written := writer.written ++ references.flatMap (leBytes 4), rest := [] } := by
    intro references
    induction references with
    | nil =>
      rintro ⟨written, rest⟩ hrest -
      obtain rfl := List.length_eq_zero_iff.mp hrest
      simp [pure, Except.pure]
    | cons page references ih =>
      intro writer hrest hwidth
      obtain ⟨hpage, hpages⟩ := List.forall_mem_cons.mp hwidth
      rw [List.length_cons] at hrest
      rw [List.foldlM_cons, List.flatMap_cons]
      simp only [bind_ok_iff, exists_unit, refuseIf_ok_iff, not_not, BinaryWriter.writeExact_ok_iff]
      refine ⟨_, ⟨hpage, by rw [length_leBytes]; omega, rfl⟩, ?_⟩
      rw [ih _ (by simp; omega) hpages, List.append_assoc]
  simp only [encodeIndirectReferences, bind_ok_iff, BinaryWriter.writeExact_ok_iff, pure_ok_iff,
    BinaryWriter.new]
  refine ⟨_, ⟨by simp; omega, rfl⟩, _, key references _ (by simp; omega) hwidth, ?_⟩
  rw [BinaryWriter.output, List.append_nil]
  rfl

end Jet3
