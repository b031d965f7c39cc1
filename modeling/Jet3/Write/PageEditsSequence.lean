import Jet3.Alloc.MutationMapGuard

/-!
# Sequences of plans

Sequential plans are applied to one private file and accumulated in one journal, which retains the
original bytes of every changed page. The journal is verified against the original and the private
file before the file is published.

* `applyPrivate` applies one plan; `verifyPrivate` checks a candidate against the journal;
* `overlay` is what a plan makes of a file: changed pages take their after image, appended pages
  follow.
-/

namespace Jet3

open Outcome

/-- `read_exact_at` on the bytes of a source. -/
def readExactAt (source : List UInt8) (offset count : ℕ) : Except Error (List UInt8) :=
  if offset + count ≤ source.length then .ok ((source.drop offset).take count)
  else .error (.unexpectedEnd offset count (source.length - offset))

/-- Writes one whole page at its place; a write past the end leaves zeros between. -/
def PageFile.writePage (file : PageFile) (page : PageNumber) (image : Page) : PageFile :=
  if page < file.length then file.set page image
  else file ++ List.replicate (page - file.length) (Block.fill pageBytes 0) ++ [image]

namespace PageEdits

/-- Carries one change of a plan into the private file and the journal `combined`. -/
def advance (state : PageFile × PageEdits) (change : PageChange) :
    Except WriteError (PageFile × PageEdits) := do
  let (file, combined) := state
  if change.page ≥ combined.firstAppend then
    let position := change.page - combined.firstAppend
    let previous ← okOr combined.appended[position]? (.mismatch "sequential appended page absent")
    refuseIf (previous ≠ change.before) (.mismatch "sequential appended page changed")
    return (file.writePage change.page change.after,
      { combined with appended := combined.appended.set position change.after })
  else
    match combined.changeOf change.page with
    | some previous =>
      refuseIf (previous.after ≠ change.before) (.mismatch "sequential source page changed")
      return (file.writePage change.page change.after, combined.setAfter change.page change.after)
    | none =>
      return (file.writePage change.page change.after,
        { combined with changes := combined.changes ++ [change] })

/-- Carries one appended page of a plan into the private file and the journal. -/
def advanceAppend (state : PageFile × PageEdits) (image : Page) :
    Except WriteError (PageFile × PageEdits) := do
  let (combined, page) ← state.2.append image
  return (state.1.writePage page image, combined)

/-- `apply_private`: applies the plan `edits`, made against the private file `file`. -/
def applyPrivate (tableMaps : PageFile → Except WriteError (List MapRowLocator)) (edits : PageEdits)
    (file : PageFile) (combined : PageEdits) : Except WriteError (PageFile × PageEdits) := do
  let next ← combined.nextAppendPage
  refuseIf (edits.firstAppend ≠ next ∨ file.length ≠ edits.firstAppend)
    (.mismatch "sequential page plan length")
  let edits ← edits.finishMaps tableMaps file
  let _ ← edits.nextAppendPage
  let state ← edits.changes.foldlM advance (file, combined)
  edits.appended.foldlM advanceAppend state

/-- The bytes one page of the original is to have: a change of the page replaces its before
image. -/
def expectedPage (changes : List PageChange) (page : PageNumber) (original : Page) :
    Except WriteError Page :=
  changes.foldlM (fun expected change =>
    if change.page = page then do
      refuseIf (expected ≠ change.before) (.mismatch "original page changed")
      return change.after
    else return expected) original

/-- A page of the candidate is the changed page of the file. -/
def verifyPage (candidate : List UInt8) (changes : List PageChange) (entry : Page × ℕ) :
    Except WriteError Unit := do
  let actual ← WriteError.ofError (readExactAt candidate (pageBytes * entry.2) pageBytes)
  let expected ← expectedPage changes entry.2 entry.1
  refuseIf (pageBytesOf expected ≠ actual) (.mismatch "unrelated or requested bytes")

/-- An appended page of the candidate is the planned one. -/
def verifyAppended (candidate : List UInt8) (length : ℕ) (entry : Page × ℕ) :
    Except WriteError Unit := do
  let actual ← WriteError.ofError
    (readExactAt candidate (pageBytes * length + pageBytes * entry.2) pageBytes)
  refuseIf (actual ≠ pageBytesOf entry.1) (.mismatch "appended page bytes")

/-- `verify_changes`. The original was opened as a database, so it is whole pages; the candidate is
any byte string. -/
def verifyChanges (original : PageFile) (candidate : List UInt8) (changes : List PageChange)
    (appended : List Page) (expectedLength : ℕ) : Except WriteError Unit := do
  refuseIf (candidate.length ≠ expectedLength) (.mismatch "file length")
  forM original.zipIdx (verifyPage candidate changes)
  forM appended.zipIdx (verifyAppended candidate original.length)

/-- The candidate is the file with the plan applied. -/
def verifyPrivate (edits : PageEdits) (original : PageFile) (candidate : List UInt8) :
    Except WriteError Unit := do
  let next ← edits.nextAppendPage
  verifyChanges original candidate edits.changes edits.appended (next * pageBytes)

/-- What a plan makes of a file. -/
def overlay (file : PageFile) (edits : PageEdits) : PageFile :=
  file.mapIdx (fun page raw => edits.current raw page) ++ edits.appended

end PageEdits

end Jet3
