import Jet3.Library.Bitmap
import Jet3.Library.Search
import Jet3.Write.Error

/-!
# Loaded allocation maps

A loaded allocation map: its record, the layout of the record, and one bitmap span per stretch of
pages the map represents. An inline map has one span inside its own record; an indirect map has one
span per bitmap page.

* `load` reads a map from a file and `contains` reads one membership;
* `overlaps` says whether two maps share storage;
* `PendingMap` collects the requested changes of one map, each against the state the ones before it
  left.
-/

namespace Jet3

open Outcome

/-- A stretch of pages from `first` on, its bitmap stored at `offset` of `page`. -/
structure BitSpan where
  first : PageNumber
  page : PageNumber
  offset : ℕ
  bytes : List UInt8
  deriving DecidableEq, Repr

/-- A loaded map: its row, the layout of the row, and the spans of bits it has in the file. -/
structure MapBits where
  locator : MapRowLocator
  range : Range
  row : List UInt8
  layout : AllocationMapLayout
  spans : List BitSpan
  deriving DecidableEq, Repr

/-- The global free-page map. -/
def globalLocator : MapRowLocator := { page := 1, row := 0 }

/-- The tag of a bitmap page. -/
def extendedHeader : List UInt8 := [5, 1, 0, 0]

namespace MapBits

/-- The reference in slot `slot` of an indirect record. -/
def reference (raw : List UInt8) (slot : ℕ) : ℕ :=
  leValue ((raw.drop (1 + indirectReferenceLen * slot)).take indirectReferenceLen)

/-- One iteration over the references of an indirect record: the bitmap page of a slot becomes a
span. The state says whether an empty slot was passed. -/
def loadReference (file : PageFile) (locator : MapRowLocator) (raw : List UInt8)
    (state : Bool × List BitSpan) (slot : ℕ) : Except WriteError (Bool × List BitSpan) := do
  let number := reference raw slot
  if number = 0 then return (true, state.2)
  refuseIf (state.1 = true) (.mismatch "nonzero bitmap reference after empty slot")
  refuseIf (number = locator.page ∨ ∃ span ∈ state.2, span.page = number)
    (.mismatch "aliased indirect bitmap page")
  let page ← WriteError.ofDefinition ((file.readClassifiedPage number).mapError .page)
  refuseIf (page.kind ≠ .extendedUsageBitmap ∨ page.raw.slice 0 4 ≠ extendedHeader)
    (.mismatch "indirect bitmap page header")
  let span : BitSpan :=
    { first := slot * extendedBitmapBits, page := number, offset := extendedBitmapOffset
      bytes := page.raw.slice extendedBitmapOffset pageBytes }
  return (false, state.2 ++ [span])

/-- The spans of a decoded record. -/
def loadSpans (file : PageFile) (locator : MapRowLocator) (record : UsageMapRecord) :
    AllocationMapLayout → Except WriteError (List BitSpan)
  | .inline startPage bitmap =>
    return [{ first := startPage, page := locator.page, offset := record.range.start + bitmap.start
              bytes := (record.raw.drop bitmap.start).take bitmap.len }]
  | .indirect references => do
    refuseIf (record.raw.length ≠ indirectRowBytes)
      (.unsupported "indirect allocation map row width")
    let loaded ← (List.range (references.len / indirectReferenceLen)).foldlM
      (loadReference file locator record.raw) (false, [])
    return loaded.2

/-- The global map covers its pages from the first one on. -/
def checkBase (locator : MapRowLocator) : AllocationMapLayout → Except WriteError Unit
  | .inline startPage _ =>
    refuseIf (locator = globalLocator ∧ startPage ≠ 0) (.mismatch "global inline map base")
  | .indirect _ => pure ()

/-- Loads the map at a row, with every bitmap page it lists. -/
def load (file : PageFile) (locator : MapRowLocator) : Except WriteError MapBits := do
  let page ← WriteError.ofDefinition ((file.readClassifiedPage locator.page).mapError .page)
  let record ← WriteError.ofUsageMap (locateUsageMap page locator)
  let layout ← WriteError.ofAllocation (decodeAllocationMapLayout record.raw)
  checkBase locator layout
  let spans ← loadSpans file locator record layout
  return { locator, range := record.range, row := record.raw, layout, spans }

/-- A map knows the row it was loaded from. -/
theorem load_locator {file : PageFile} {locator : MapRowLocator} {map : MapBits}
    (h : load file locator = .ok map) : map.locator = locator := by
  simp only [load, bind_ok_iff, pure_ok_iff] at h
  obtain ⟨_, _, _, _, _, _, _, _, _, _, rfl⟩ := h
  rfl

/-- The span a page would lie in: the last one that starts at or before it. -/
def spanOf (map : MapBits) (page : PageNumber) : Option BitSpan :=
  let position := Search.partitionPoint (fun span => decide (span.first ≤ page)) map.spans
  if position = 0 then none else map.spans[position - 1]?

/-- Whether the map has a bit for the page. -/
def represents (map : MapBits) (page : PageNumber) : Bool :=
  match map.spanOf page with
  | none => false
  | some span => (page - span.first) / 8 < span.bytes.length

/-- A missing indirect slot or a page outside an inline window has no set bit. -/
def contains (map : MapBits) (page : PageNumber) : Bool :=
  match map.spanOf page with
  | none => false
  | some span =>
    let bit := page - span.first
    if bit / 8 ≥ span.bytes.length then false else Bitmap.test span.bytes bit

/-- Two stretches of the same page that meet. -/
def spansMeet (span other : BitSpan) : Bool :=
  span.page = other.page ∧ span.offset < other.offset + other.bytes.length ∧
    other.offset < span.offset + span.bytes.length

/-- Whether two maps share a byte of a row or a bitmap page. -/
def overlaps (map other : MapBits) : Bool :=
  if map.locator.page = other.locator.page ∧ map.range.start < other.range.stop ∧
      other.range.start < map.range.stop then true
  else map.spans.any fun span => other.spans.any fun otherSpan => spansMeet span otherSpan

/-- The pages that hold the record and the bitmaps of a map. -/
def metadataPages (map : MapBits) : List PageNumber :=
  map.locator.page :: map.spans.map BitSpan.page

end MapBits

/-- The requested changes of one map: pages with the membership they are to have. -/
structure PendingMap where
  bits : MapBits
  changes : List (PageNumber × Bool)
  deriving DecidableEq, Repr

namespace PendingMap

/-- A map whose bits a plan has not asked to change. -/
def new (bits : MapBits) : PendingMap :=
  { bits, changes := [] }

/-- Whether this is the map of the free pages. -/
def isGlobal (map : PendingMap) : Bool :=
  map.bits.locator = globalLocator

/-- The membership a page has before the next change. A page past the end of the file that the
global map does not represent is free. -/
def membership (map : PendingMap) (page : PageNumber) (eof : ℕ) : Bool :=
  match map.changes.lookup page with
  | some value => value
  | none =>
    if map.isGlobal ∧ eof ≤ page ∧ map.bits.represents page = false then true
    else map.bits.contains page

/-- Gives `page` the membership `desired`, where its membership is `expected`. -/
def change (map : PendingMap) (page : PageNumber) (expected desired : Bool) (eof : ℕ) :
    Except WriteError PendingMap := do
  refuseIf (map.membership page eof ≠ expected) (.mismatch "allocation map membership")
  match map.changes.findIdx? fun entry => entry.1 = page with
  | some position =>
    return { map with changes := map.changes.set position (page, desired) }
  | none => return { map with changes := map.changes ++ [(page, desired)] }

end PendingMap

end Jet3
