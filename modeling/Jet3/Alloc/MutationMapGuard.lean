import Jet3.Alloc.MutationMap

/-!
# Placing the maps of a plan

`validateMaps` rejects shared bitmap storage before any allocation role changes, and `finishMaps`
then places every pending map, the global one last.

The allocation maps the catalogued tables own are read from the file by `tableMaps`: the catalog and
the table definitions it decodes are no part of a plan.
-/

namespace Jet3

open Outcome

/-- One iteration of the inspection of `bits` against the pending maps: `seen` marks the maps whose
role was met. -/
def inspectMap (bits : MapBits) (isGlobal : Bool) (seen : List Bool) (entry : PendingMap × ℕ) :
    Except WriteError (List Bool) := do
  let map := entry.1.bits
  if bits.locator = map.locator then
    refuseIf (seen.getD entry.2 false = true) (.mismatch "allocation map shared between roles")
  else refuseIf (bits.overlaps map = true) (.mismatch "allocation bitmap shared between roles")
  let seen := if bits.locator = map.locator then seen.set entry.2 true else seen
  if isGlobal then return seen
  else
    forM map.metadataPages fun page =>
      refuseIf (bits.contains page = true) (.mismatch "allocation metadata claimed as content")
    return seen

/-- Checks the bits of one map against the changes of all maps. -/
def inspect (bits : MapBits) (maps : List PendingMap) (isGlobal : Bool) (seen : List Bool) :
    Except WriteError (List Bool) :=
  maps.zipIdx.foldlM (inspectMap bits isGlobal) seen

/-- `mutation_map_guard::validate`. -/
def validateMaps (tableMaps : PageFile → Except WriteError (List MapRowLocator)) (file : PageFile)
    (maps : List PendingMap) : Except WriteError Unit := do
  let locators ← tableMaps file
  let global ← MapBits.load file globalLocator
  forM maps fun map => forM map.bits.metadataPages fun page =>
    refuseIf (global.contains page = true) (.mismatch "allocation metadata is globally free")
  let seen ← inspect global maps true (List.replicate maps.length false)
  let seen ← locators.foldlM
    (fun seen locator => do
      let bits ← MapBits.load file locator
      inspect bits maps false seen) seen
  refuseIf (∃ s ∈ seen, s = false) (.mismatch "unreferenced mutation map")

namespace PageEdits

/-- The pending global map and the others; a plan that has none loads it. -/
def splitGlobal (file : PageFile) (maps : List PendingMap) :
    Except WriteError (PendingMap × List PendingMap) :=
  match maps.find? PendingMap.isGlobal with
  | some global => .ok (global, maps.eraseIdx (maps.findIdx PendingMap.isGlobal))
  | none => do
    let bits ← MapBits.load file globalLocator
    return (.new bits, maps)

/-- Writes the requested bits of all maps, the global map last. -/
def finishMaps (tableMaps : PageFile → Except WriteError (List MapRowLocator)) (file : PageFile)
    (edits : PageEdits) : Except WriteError PageEdits :=
  if edits.maps.isEmpty then .ok edits
  else do
    validateMaps tableMaps file edits.maps
    let (global, maps) ← splitGlobal file edits.maps
    let edits ← maps.foldlM (fun edits map => map.apply file edits) { edits with maps := [] }
    global.apply file edits

/-- Placing the maps of a plan keeps a property the placing operations keep; what a plan's pending
maps are does not matter to it. -/
theorem finishMaps_keeps {tableMaps : PageFile → Except WriteError (List MapRowLocator)}
    {file : PageFile} {P : PageEdits → Prop} (hP : KeptByMaps file P)
    (hmaps : ∀ {edits : PageEdits}, P edits → P { edits with maps := [] })
    {edits edits' : PageEdits}
    (h : P edits) (hok : edits.finishMaps tableMaps file = .ok edits') : P edits' := by
  unfold finishMaps at hok
  split at hok
  · cases hok
    exact h
  · simp only [bind_ok_iff, Prod.exists] at hok
    obtain ⟨_, -, global, maps, -, edits'', hloop, hglobal⟩ := hok
    refine hP.apply ?_ hglobal
    refine foldlM_ok_induction (fun _ edits => P edits) (hmaps h) ?_ hloop
    intro _ _ _ before after _ hbefore hstep
    exact hP.apply hbefore hstep

/-- The finished plan of a file is a plan of that file. -/
theorem Against.finishMaps {tableMaps : PageFile → Except WriteError (List MapRowLocator)}
    {file : PageFile} {edits edits' : PageEdits} (h : Against file edits)
    (hok : edits.finishMaps tableMaps file = .ok edits') : Against file edits' :=
  finishMaps_keeps (keptByMaps_against file) (fun h => h.congr rfl rfl) h hok

end PageEdits

end Jet3
