import Jet3.Write.PageEdits

/-!
# Placing allocation-map changes

`PendingMap.apply` carries the collected changes of one map into a plan. A change outside the
stretch an inline map represents converts the map to the indirect form, and a missing slot of an
indirect map is filled by appended bitmap pages. The global map records every page the plan appends,
its own bitmap pages included.
-/

namespace Jet3

open Outcome

/-- `put_bit`. -/
def putBit (bytes : List UInt8) (bit : ℕ) (desired : Bool) : Except WriteError (List UInt8) :=
  if bit / 8 < bytes.length then .ok (Bitmap.put bytes bit desired)
  else .error (.mismatch "allocation bit offset")

namespace MapBits

/-- The bit of `page` in an inline map that represents it. -/
def inlineBit (map : MapBits) (page : PageNumber) : Option ℕ :=
  match map.layout with
  | .indirect _ => none
  | .inline startPage bitmap =>
    if startPage ≤ page ∧ (page - startPage) / 8 < bitmap.len then some (page - startPage) else none

/-- Whether the bits of the map are in its row. -/
def isInline (map : MapBits) : Bool :=
  match map.layout with
  | .inline _ _ => true
  | .indirect _ => false

/-- Changes one bit of the span at `position`. -/
def putSpan (map : MapBits) (position bit : ℕ) (desired : Bool) (missing : String) :
    Except WriteError MapBits := do
  let span ← okOr map.spans[position]? (.mismatch missing)
  let bytes ← putBit span.bytes bit desired
  return { map with spans := map.spans.set position { span with bytes } }

/-- The bitmap of a new slot: in the global map the pages past the end of the file are free. -/
def newSlotBytes (isGlobal : Bool) (eof first : ℕ) : Except WriteError (List UInt8) :=
  let bytes := List.replicate (extendedBitmapBits / 8) 0
  if isGlobal then
    let start := min (eof - first) extendedBitmapBits
    (List.range' start (extendedBitmapBits - start)).foldlM (fun bytes bit => putBit bytes bit true)
      bytes
  else .ok bytes

/-- Appends the bitmap page of the next slot. -/
def addSlot (isGlobal : Bool) (eof : ℕ) (map : MapBits) (edits : PageEdits) :
    Except WriteError (MapBits × PageEdits) := do
  let ordinal := map.spans.length
  let first := ordinal * extendedBitmapBits
  let bytes ← newSlotBytes isGlobal eof first
  let (edits, page) ← edits.append (PageKind.newImage .extendedUsageBitmap)
  refuseIf (¬page < 2 ^ 32) (.mismatch "bitmap reference width")
  let offset := 1 + ordinal * indirectReferenceLen
  let row := map.row.take offset ++ leBytes 4 page ++ map.row.drop (offset + 4)
  let span : BitSpan := { first, page, offset := extendedBitmapOffset, bytes }
  return ({ map with row, spans := map.spans ++ [span] }, edits)

/-- Fills the slots of an indirect map up to `slot`. Active references form a prefix before the
empty slots. -/
def ensureSlot (isGlobal : Bool) (eof slot : ℕ) (map : MapBits) (edits : PageEdits) :
    Except WriteError (MapBits × PageEdits) := do
  refuseIf (slot ≥ indirectReferenceSlots) (.unsupported "indirect allocation reference capacity")
  (List.range (slot + 1 - map.spans.length)).foldlM
    (fun (state : MapBits × PageEdits) _ => addSlot isGlobal eof state.1 state.2) (map, edits)

/-- Changes the bit of `page` in an indirect map. -/
def putIndirect (isGlobal : Bool) (eof : ℕ) (page : PageNumber) (desired : Bool)
    (state : MapBits × PageEdits) : Except WriteError (MapBits × PageEdits) := do
  let slot := page / extendedBitmapBits
  let (map, edits) ← ensureSlot isGlobal eof slot state.1 state.2
  let map ← map.putSpan slot (page % extendedBitmapBits) desired "allocation bit offset"
  return (map, edits)

/-- The pages whose bit a span sets, in the order of its bits. -/
def spanMembers (span : BitSpan) : List PageNumber :=
  (Bitmap.members span.bytes).map (span.first + ·)

/-- Gives an inline map the indirect form: its record grows and its members move to bitmap pages. -/
def convert (isGlobal : Bool) (eof : ℕ) (map : MapBits) (edits : PageEdits) :
    Except WriteError (MapBits × PageEdits) :=
  let row := 1 :: List.replicate (indirectRowBytes - 1) 0
  let empty : MapBits :=
    { map with row, layout := .indirect { start := 1, stop := row.length }, spans := [] }
  (map.spans.flatMap spanMembers).foldlM
    (fun state page => putIndirect isGlobal eof page true state) (empty, edits)

/-- The indirect form of a map. -/
def ensureIndirect (isGlobal : Bool) (eof : ℕ) (state : MapBits × PageEdits) :
    Except WriteError (MapBits × PageEdits) :=
  if state.1.isInline then convert isGlobal eof state.1 state.2 else .ok state

/-- A page that is not to be a member has no bit to clear: its window or its slot is missing. -/
def missingSlot (map : MapBits) (page : PageNumber) : Bool :=
  map.isInline ||
    map.spans.all fun span => span.first / extendedBitmapBits ≠ page / extendedBitmapBits

/-- Sets the bit of a page, in the row or on a bitmap page that may have to be made first. -/
def set (isGlobal : Bool) (eof : ℕ) (page : PageNumber) (desired : Bool)
    (state : MapBits × PageEdits) : Except WriteError (MapBits × PageEdits) :=
  match state.1.inlineBit page with
  | some bit => do
    let map ← state.1.putSpan 0 bit desired "inline bitmap span"
    return (map, state.2)
  | none =>
    if desired = false ∧ isGlobal = false ∧ state.1.missingSlot page = true then .ok state
    else do
      let state ← ensureIndirect isGlobal eof state
      putIndirect isGlobal eof page desired state

/-- Writes the bitmap of one span to its page. -/
def stageSpan (file : PageFile) (edits : PageEdits) (span : BitSpan) :
    Except WriteError PageEdits := do
  let edits ← edits.patchBytes file span.page 0 extendedHeader
  edits.patchBytes file span.page span.offset span.bytes

/-- Writes a map that was loaded with the record `original` to its pages. -/
def stage (file : PageFile) (original : List UInt8) (map : MapBits) (edits : PageEdits) :
    Except WriteError PageEdits :=
  match map.layout with
  | .inline _ bitmap => do
    let span ← okOr map.spans.head? (.mismatch "inline map storage")
    let row := map.row.take bitmap.start ++ span.bytes ++ map.row.drop bitmap.stop
    edits.mapRecord file map.locator original row
  | .indirect _ => do
    let edits ← edits.mapRecord file map.locator original map.row
    map.spans.foldlM (stageSpan file) edits

end MapBits

namespace PendingMap

/-- Includes every page the plan appended from `number` on in the global map. Recording a page may
append bitmap pages, so the end is read again before each. -/
def recordAppended (eof : ℕ) : ℕ → ℕ → MapBits × PageEdits → Except WriteError (MapBits × PageEdits)
  | 0, _, state => .ok state
  | fuel + 1, number, state => do
    let stop ← state.2.nextAppendPage
    if number < stop then
      let state ← MapBits.set true eof number false state
      recordAppended eof fuel (number + 1) state
    else return state

/-- The global map records its own bitmap pages. -/
def recordOwn (map : PendingMap) (eof : ℕ) (state : MapBits × PageEdits) :
    Except WriteError (MapBits × PageEdits) :=
  if map.isGlobal then recordAppended eof (maxAppendPage + 1) eof state else .ok state

/-- Carries the changes of a map into a plan. -/
def apply (map : PendingMap) (file : PageFile) (edits : PageEdits) :
    Except WriteError PageEdits := do
  let eof := file.pageCount
  let state ← map.changes.foldlM
    (fun state change => MapBits.set map.isGlobal eof change.1 change.2 state) (map.bits, edits)
  let state ← map.recordOwn eof state
  state.1.stage file map.bits.row state.2

end PendingMap

/-! ## What placing a map does to a plan

A map is placed by appending bitmap pages, rewriting its record and patching bitmap pages, and by
nothing else: a property these three operations keep is kept by the whole. -/

/-- A property of plans that the operations placing a map keep. -/
structure KeptByMaps (file : PageFile) (P : PageEdits → Prop) : Prop where
  append : ∀ {edits edits' image page}, P edits → edits.append image = .ok (edits', page) → P edits'
  mapRecord : ∀ {edits edits' locator expected desired}, P edits →
    edits.mapRecord file locator expected desired = .ok edits' → P edits'
  patchBytes : ∀ {edits edits' page offset bytes}, P edits →
    edits.patchBytes file page offset bytes = .ok edits' → P edits'

/-- The plan of a file stays a plan of that file. -/
theorem keptByMaps_against (file : PageFile) : KeptByMaps file (PageEdits.Against file) where
  append := .append
  mapRecord := .mapRecord
  patchBytes := .patchBytes

namespace KeptByMaps

variable {file : PageFile} {P : PageEdits → Prop} {isGlobal : Bool} {eof : ℕ}
  {edits edits' : PageEdits} {map map' : MapBits}

/-- What the single edits of a plan keep is kept when a slot is added. -/
theorem addSlot (hP : KeptByMaps file P) (h : P edits)
    (hok : map.addSlot isGlobal eof edits = .ok (map', edits')) : P edits' := by
  simp only [MapBits.addSlot, bind_ok_iff, pure_ok_iff, Prod.mk.injEq, Prod.exists] at hok
  obtain ⟨_, -, edits'', page, happend, -, -, -, rfl⟩ := hok
  exact hP.append h happend

/-- It is kept when a slot is asked for. -/
theorem ensureSlot (hP : KeptByMaps file P) {slot : ℕ} (h : P edits)
    (hok : map.ensureSlot isGlobal eof slot edits = .ok (map', edits')) : P edits' := by
  simp only [MapBits.ensureSlot, bind_ok_iff] at hok
  obtain ⟨_, -, hloop⟩ := hok
  refine foldlM_ok_induction (fun _ state => P state.2) h ?_ hloop
  intro _ _ _ state state' _ hstate hstep
  exact hP.addSlot hstate hstep

/-- It is kept when a bit is set on a bitmap page. -/
theorem putIndirect (hP : KeptByMaps file P) {page : PageNumber} {desired : Bool}
    (h : P edits) (hok : MapBits.putIndirect isGlobal eof page desired (map, edits) =
      .ok (map', edits')) : P edits' := by
  simp only [MapBits.putIndirect, bind_ok_iff, pure_ok_iff, Prod.mk.injEq, Prod.exists] at hok
  obtain ⟨_, edits'', hslot, _, -, -, rfl⟩ := hok
  exact hP.ensureSlot h hslot

/-- It is kept when the row gets bitmap pages. -/
theorem convert (hP : KeptByMaps file P) (h : P edits)
    (hok : map.convert isGlobal eof edits = .ok (map', edits')) : P edits' := by
  refine foldlM_ok_induction (fun _ state => P state.2) h ?_ hok
  intro _ _ _ state state' _ hstate hstep
  exact hP.putIndirect hstate hstep

/-- It is kept when a bit is set in either layout. -/
theorem set (hP : KeptByMaps file P) {page : PageNumber} {desired : Bool}
    (h : P edits) (hok : MapBits.set isGlobal eof page desired (map, edits) = .ok (map', edits')) :
    P edits' := by
  unfold MapBits.set at hok
  split at hok
  · simp only [bind_ok_iff, pure_ok_iff, Prod.mk.injEq] at hok
    obtain ⟨_, -, -, rfl⟩ := hok
    exact h
  · split at hok
    · cases hok
      exact h
    · obtain ⟨⟨map'', edits''⟩, hconvert, hput⟩ := bind_ok_iff.mp hok
      refine hP.putIndirect ?_ hput
      unfold MapBits.ensureIndirect at hconvert
      split at hconvert
      · exact hP.convert h hconvert
      · cases hconvert
        exact h

/-- It is kept when the pages appended on the way are recorded. -/
theorem recordAppended (hP : KeptByMaps file P) {fuel number : ℕ}
    {state state' : MapBits × PageEdits}
    (h : P state.2) (hok : PendingMap.recordAppended eof fuel number state = .ok state') :
    P state'.2 := by
  induction fuel generalizing number state with
  | zero =>
    cases hok
    exact h
  | succ fuel ih =>
    simp only [PendingMap.recordAppended, bind_ok_iff] at hok
    obtain ⟨stop, -, hok⟩ := hok
    split at hok
    · obtain ⟨state'', hset, hrest⟩ := bind_ok_iff.mp hok
      exact ih (hP.set h hset) hrest
    · cases hok
      exact h

/-- It is kept when the row of the map is written back. -/
theorem stage (hP : KeptByMaps file P) {original : List UInt8} (h : P edits)
    (hok : map.stage file original edits = .ok edits') : P edits' := by
  unfold MapBits.stage at hok
  split at hok
  · simp only [bind_ok_iff] at hok
    obtain ⟨_, -, hrecord⟩ := hok
    exact hP.mapRecord h hrecord
  · simp only [bind_ok_iff] at hok
    obtain ⟨edits'', hrecord, hspans⟩ := hok
    refine foldlM_ok_induction (fun _ edits => P edits) (hP.mapRecord h hrecord) ?_ hspans
    intro _ span _ before after _ hbefore hstep
    simp only [MapBits.stageSpan, bind_ok_iff] at hstep
    obtain ⟨headed, hheader, hbytes⟩ := hstep
    exact hP.patchBytes (hP.patchBytes hbefore hheader) hbytes

/-- Placing a pending map keeps the property. -/
theorem apply (hP : KeptByMaps file P) {pending : PendingMap} (h : P edits)
    (hok : pending.apply file edits = .ok edits') : P edits' := by
  simp only [PendingMap.apply, bind_ok_iff] at hok
  obtain ⟨changed, hchanges, recorded, hrecorded, hstage⟩ := hok
  have hchanged : P changed.2 := by
    refine foldlM_ok_induction (fun _ state => P state.2) h ?_ hchanges
    intro _ _ _ state state' _ hstate hstep
    exact hP.set hstate hstep
  refine hP.stage ?_ hstage
  unfold PendingMap.recordOwn at hrecorded
  split at hrecorded
  · exact hP.recordAppended hchanged hrecorded
  · cases hrecorded
    exact hchanged

end KeptByMaps

end Jet3
