import Jet3.Library.Effect
import Mathlib.Logic.Function.Basic
import Mathlib.Data.Nat.Notation

/-!
# Atomic publication

An update works on a private copy in the target's directory and renames it over the target, and a
creation links a private file to a target that is absent. Every system call, hook and caller's
closure is an operation that can fail; before each of them the private names can change.

The machine is a directory, the contents of the files and the state of the guard that removes the
private entry. Permissions, durability and the resource budget have no effect on it but that the
operations on them can fail.
-/

namespace Jet3.Atomic

/-- The stages of publication, in their order; the last one follows an earlier failure. -/
inductive PublishStage where
  | privateCopyCreation
  | copy
  | mutation
  | metadata
  | validation
  | fileSync
  | prePublish
  | publish
  | directorySync
  | cleanup
  deriving DecidableEq, Repr

/-- Whether the target has been replaced at this stage. -/
def PublishStage.isPostPublication : PublishStage → Bool
  | directorySync => true
  | _ => false

/-- What a failed operation reports. -/
inductive IoError where
  | invalidInput (message : String)
  | invalidData (message : String)
  | alreadyExists (message : String)
  | notFound
  | unexpectedEof
  /-- Anything else the operating system reports. -/
  | system
  /-- The error of a hook, of the mutation or of the validator. -/
  | caller
  deriving DecidableEq, Repr

/-- Where an update failed, and whether the removal of its private file failed too. -/
structure PublishError where
  stage : PublishStage
  source : IoError
  cleanupSource : Option IoError
  deriving DecidableEq, Repr

/-! ## The machine -/

/-- What identifies a file whatever its names are: device and inode, or volume and index. -/
abbrev FileIdentity := ℕ

/-- The names in the directory that matter: the target, and the private name of each attempt. -/
inductive EntryName where
  | target
  | privateName (attempt : ℕ)
  deriving DecidableEq, Repr

/-- A change of a directory entry made by the publication. -/
structure Change where
  name : EntryName
  before : Option FileIdentity
  after : Option FileIdentity
  deriving DecidableEq, Repr

/-- The operations that can fail. -/
inductive Operation where
  | hook (stage : PublishStage)
  | metadata
  | createNew
  | captureIdentity
  | openTarget
  | copyChunk
  | seek
  | mutate
  | setPermissions
  | validate
  | syncAll
  | pathIdentity
  | replace
  | linkNew
  | removeFile
  | syncDirectory
  deriving DecidableEq, Repr

/-- The error an operation fails with. -/
def Operation.error : Operation → IoError
  | hook _ | mutate | validate => .caller
  | _ => .system

/-- The directory and the files, and what happened to them so far. -/
structure Machine where
  entries : EntryName → Option FileIdentity
  contents : FileIdentity → List UInt8
  /-- The number of operations so far. -/
  clock : ℕ
  /-- The changes made to the directory, the last one first. -/
  changes : List Change
  /-- The operations the environment made fail with their times, the last one first. -/
  failures : List (Operation × ℕ)
  /-- Whether the guard of the private entry is armed. -/
  armed : Bool

/-- A change of a directory entry made by somebody else. -/
structure Interference where
  name : EntryName
  entry : Option FileIdentity
  deriving DecidableEq, Repr

/-- What the machine does not control. -/
structure Environment where
  /-- The identity given to the file this publication creates. -/
  created : FileIdentity
  isRegularFile : FileIdentity → Bool
  /-- What happens to the directory before an operation at a time. -/
  interference : Operation → ℕ → Option Interference
  /-- Whether an operation fails at a time; a failing write still writes so many bytes. -/
  failure : Operation → ℕ → Option ℕ

variable (env : Environment)

namespace Machine

/-- Changes one name of the directory. -/
def setEntry (m : Machine) (name : EntryName) (entry : Option FileIdentity) : Machine :=
  { m with entries := Function.update m.entries name entry }

/-- Changes the bytes of one file. -/
def setContents (m : Machine) (file : FileIdentity) (bytes : List UInt8) : Machine :=
  { m with contents := Function.update m.contents file bytes }

/-- Sets a directory entry and records the change. -/
def changeEntry (m : Machine) (name : EntryName) (entry : Option FileIdentity) : Machine :=
  { m.setEntry name entry with changes := ⟨name, m.entries name, entry⟩ :: m.changes }

@[simp]
theorem entries_changeEntry (m : Machine) (name : EntryName) (entry : Option FileIdentity) :
    (m.changeEntry name entry).entries = Function.update m.entries name entry :=
  rfl

@[simp]
theorem contents_changeEntry (m : Machine) (name : EntryName) (entry : Option FileIdentity) :
    (m.changeEntry name entry).contents = m.contents :=
  rfl

@[simp]
theorem entries_setContents (m : Machine) (file : FileIdentity) (bytes : List UInt8) :
    (m.setContents file bytes).entries = m.entries :=
  rfl

@[simp]
theorem contents_setContents (m : Machine) (file : FileIdentity) (bytes : List UInt8) :
    (m.setContents file bytes).contents = Function.update m.contents file bytes :=
  rfl

/-- What happens before an operation. -/
def strike (m : Machine) (operation : Operation) : Machine :=
  let struck := match env.interference operation m.clock with
    | none => m
    | some interference => m.setEntry interference.name interference.entry
  { struck with clock := m.clock + 1 }

/-- The last operation of the run so far was this one, and the environment made it fail. -/
def JustFailed (m : Machine) (operation : Operation) : Prop :=
  ∃ time, m.failures.head? = some (operation, time) ∧ m.clock = time + 1

end Machine

/-- An operation: interference strikes, and then the operation fails or does its work. -/
def operateOr (operation : Operation) (failed : ℕ → Machine → Machine)
    {α : Type} (work : Effect Machine IoError α) : Effect Machine IoError α := fun m =>
  match env.failure operation m.clock with
  | some written =>
    let struck := failed written (m.strike env operation)
    (.error operation.error,
      { struck with failures := (operation, m.clock) :: struck.failures })
  | none => work (m.strike env operation)

/-- An operation that has no effect when it fails. -/
def operate (operation : Operation) {α : Type} (work : Effect Machine IoError α) :
    Effect Machine IoError α :=
  operateOr env operation (fun _ m => m) work

/-! ## The file system -/

/-- The identity of a directory entry. -/
def lookup (name : EntryName) : Effect Machine IoError FileIdentity := fun m =>
  match m.entries name with
  | some identity => (.ok identity, m)
  | none => (.error .notFound, m)

/-- `OpenOptions::create_new`. -/
def createNew (name : EntryName) : Effect Machine IoError Unit :=
  operate env .createNew fun m =>
    match m.entries name with
    | some _ => (.error (.alreadyExists ""), m)
    | none => (.ok (), (m.changeEntry name (some env.created)).setContents env.created [])

/-- `fs::remove_file`. -/
def removeFile (name : EntryName) : Effect Machine IoError Unit :=
  operate env .removeFile fun m =>
    match m.entries name with
    | some _ => (.ok (), m.changeEntry name none)
    | none => (.error .notFound, m)

/-- `fs::rename` of a private name over the target. -/
def replace (name : EntryName) : Effect Machine IoError Unit :=
  operate env .replace fun m =>
    match m.entries name with
    | some identity => (.ok (), (m.changeEntry .target (some identity)).changeEntry name none)
    | none => (.error .notFound, m)

/-- `fs::hard_link` of a private name to the target, which has to be absent. -/
def linkNew (name : EntryName) : Effect Machine IoError Unit :=
  operate env .linkNew fun m =>
    match m.entries name, m.entries .target with
    | none, _ => (.error .notFound, m)
    | some _, some _ => (.error (.alreadyExists ""), m)
    | some identity, none => (.ok (), m.changeEntry .target (some identity))

/-! ## The private copy -/

/-- The names that are tried for the private file. -/
def maxPrivateNameAttempts : ℕ := 128

/-- The private file: the attempt its name is from, and the file it was created as. -/
structure PrivateCopy where
  attempt : ℕ
  identity : FileIdentity
  deriving DecidableEq, Repr

namespace PrivateCopy

/-- The name of the private file. -/
def path (copy : PrivateCopy) : EntryName := .privateName copy.attempt

/-- From here on the private file is removed when the guard is dropped. -/
def arm : Effect Machine IoError Unit := Effect.change fun m => { m with armed := true }

/-- The guard no longer removes anything. -/
def disarm {ε : Type} : Effect Machine ε Unit := Effect.change fun m => { m with armed := false }

/-- Dropping the guard alone: nothing identifies the entry yet. -/
def dropGuard (name : EntryName) : Effect Machine IoError Unit := do
  let _ ← (removeFile env name).attempt
  disarm

/-- Tries `attempts` private names from `attempt` on. -/
def createFrom : ℕ → ℕ → Effect Machine IoError PrivateCopy
  | 0, _ => Effect.fail (.alreadyExists "could not create a unique private copy")
  | attempts + 1, attempt => do
    match ← (createNew env (.privateName attempt)).attempt with
    | .ok () =>
      arm
      match ← (operate env .captureIdentity (pure env.created)).attempt with
      | .ok identity => return { attempt, identity }
      | .error error =>
        dropGuard env (.privateName attempt)
        Effect.fail error
    | .error (.alreadyExists _) => createFrom attempts (attempt + 1)
    | .error error => Effect.fail error

/-- Creates the private file under the first name that is free. -/
def create : Effect Machine IoError PrivateCopy := createFrom env maxPrivateNameAttempts 0

/-- The private name still names the file that was created. -/
def verifyPathIdentity (copy : PrivateCopy) : Effect Machine IoError Unit := do
  let actual ← operate env .pathIdentity (lookup copy.path)
  if actual = copy.identity then return ()
  else
    Effect.fail (.invalidData
      "private path no longer identifies the file created by this operation")

/-- The removal after a failure before publication. -/
def cleanup (copy : PrivateCopy) : Effect Machine IoError Unit := do
  operate env (.hook .cleanup) (pure ())
  copy.verifyPathIdentity env
  match ← (removeFile env copy.path).attempt with
  | .ok () => disarm
  | .error .notFound => disarm
  | .error error => Effect.fail error

/-- Dropping the private copy: the last removal of an entry that is still guarded. -/
def drop {ε : Type} (copy : PrivateCopy) : Effect Machine ε Unit := fun m =>
  if m.armed then
    (do
      match ← (copy.verifyPathIdentity env).attempt with
      | .ok () => let _ ← (removeFile env copy.path).attempt
      | .error _ => pure ()
      disarm : Effect Machine ε Unit) m
  else (.ok (), m)

end PrivateCopy

/-! ## Publication -/

/-- Attributes the errors of some work to a stage. -/
def atStage (stage : PublishStage) {α : Type} (work : Effect Machine IoError α) :
    Effect Machine PublishError α :=
  work.mapError fun source => { stage, source, cleanupSource := none }

/-- Calls the hook of the caller. -/
def callHook (stage : PublishStage) : Effect Machine PublishError Unit :=
  atStage stage (operate env (.hook stage) (pure ()))

/-- The bytes copied at a time. -/
def copyBufferBytes : ℕ := 64 * 1024

/-- Copies a chunk from the open target to the end of the private file. -/
def copyChunk (source : FileIdentity) (copy : PrivateCopy) (position chunk : ℕ) :
    Effect Machine IoError Unit := fun m =>
  let bytes := ((m.contents source).drop position).take chunk
  operateOr env .copyChunk
    (fun written m =>
      m.setContents copy.identity (m.contents copy.identity ++ bytes.take written))
    (fun m =>
      if bytes.length < chunk then (.error .unexpectedEof, m)
      else (.ok (), m.setContents copy.identity (m.contents copy.identity ++ bytes))) m

/-- The loop over the chunks. The first argument bounds the iterations. -/
def copyChunks (source : FileIdentity) (copy : PrivateCopy) :
    ℕ → ℕ → ℕ → Effect Machine IoError Unit
  | 0, _, _ => pure ()
  | fuel + 1, position, remaining =>
    if remaining = 0 then pure ()
    else do
      let chunk := min remaining copyBufferBytes
      copyChunk env source copy position chunk
      copyChunks source copy fuel (position + chunk) (remaining - chunk)

/-- Copies the target into the private file. -/
def copyOriginal (copy : PrivateCopy) (originalLen : ℕ) : Effect Machine IoError Unit := do
  let source ← operate env .openTarget (lookup .target)
  copyChunks env source copy originalLen 0 originalLen

/-- Runs the caller's closure on the private file: whether it succeeds, and the bytes it leaves. -/
def mutate (copy : PrivateCopy) (mutation : List UInt8 → Bool × List UInt8) :
    Effect Machine IoError Unit :=
  operate env .mutate fun m =>
    let (accepted, bytes) := mutation (m.contents copy.identity)
    (if accepted then .ok () else .error .caller, m.setContents copy.identity bytes)

/-- Runs the caller's validator on the private path. -/
def validate (copy : PrivateCopy) (validator : Option (List UInt8) → Bool) :
    Effect Machine IoError Unit :=
  operate env .validate fun m =>
    (if validator ((m.entries copy.path).map m.contents) then .ok () else .error .caller, m)

section Update

variable (mutation : List UInt8 → Bool × List UInt8) (validator : Option (List UInt8) → Bool)

/-- The stages of an update from the private copy on. -/
def updateStages (copy : PrivateCopy) (originalLen : ℕ) : Effect Machine PublishError Unit := do
  callHook env .copy
  atStage .copy (copyOriginal env copy originalLen)
  callHook env .mutation
  atStage .mutation (operate env .seek (pure ()))
  atStage .mutation (mutate env copy mutation)
  callHook env .metadata
  atStage .metadata (operate env .setPermissions (do let _ ← lookup copy.path))
  callHook env .validation
  atStage .validation (validate env copy validator)
  callHook env .fileSync
  atStage .fileSync (operate env .syncAll (pure ()))
  callHook env .prePublish
  callHook env .publish
  atStage .publish (copy.verifyPathIdentity env)
  atStage .publish (replace env copy.path)
  PrivateCopy.disarm
  callHook env .directorySync
  atStage .directorySync (operate env .syncDirectory (pure ()))

/-- The stages of a creation from the private file on. -/
def createStages (copy : PrivateCopy) : Effect Machine PublishError Unit := do
  callHook env .mutation
  atStage .mutation (mutate env copy mutation)
  callHook env .validation
  atStage .validation (validate env copy validator)
  callHook env .fileSync
  atStage .fileSync (operate env .syncAll (pure ()))
  callHook env .prePublish
  callHook env .publish
  atStage .publish (copy.verifyPathIdentity env)
  atStage .publish (linkNew env copy.path)
  PrivateCopy.disarm
  callHook env .directorySync
  atStage .directorySync (removeFile env copy.path)
  atStage .directorySync (operate env .syncDirectory (pure ()))

/-- The end of both: a failure before publication removes the private entry, and its failure to do
so is attached to the first one. -/
def finish (copy : PrivateCopy) (result : Except PublishError Unit) :
    Effect Machine PublishError Unit := do
  match result with
  | .ok () => copy.drop env
  | .error error =>
    if error.stage.isPostPublication then
      copy.drop env
      Effect.fail error
    else
      match ← (copy.cleanup env).attempt with
      | .ok () =>
        copy.drop env
        Effect.fail error
      | .error cleanupError =>
        copy.drop env
        Effect.fail { error with cleanupSource := some cleanupError }

/-- Updates the target through a private copy, which replaces it in the end. -/
def atomicUpdateBudgeted : Effect Machine PublishError Unit := do
  let target ← atStage .privateCopyCreation (operate env .metadata (lookup .target))
  let originalLen ← fun m => (.ok (m.contents target).length, m)
  if env.isRegularFile target = false then
    Effect.fail
      { stage := .privateCopyCreation
        source := .invalidInput "atomic update target must be an existing regular file"
        cleanupSource := none }
  else
    callHook env .privateCopyCreation
    let copy ← atStage .privateCopyCreation (PrivateCopy.create env)
    let result ← (updateStages env mutation validator copy originalLen).attempt
    finish env copy result

/-- Creates the target, which must not exist, in the same way. -/
def atomicCreateWithHook : Effect Machine PublishError Unit := do
  match ← (operate env .metadata (lookup .target)).attempt with
  | .ok _ =>
    Effect.fail
      { stage := .privateCopyCreation
        source := .alreadyExists "atomic create target already exists"
        cleanupSource := none }
  | .error .notFound =>
    callHook env .privateCopyCreation
    let copy ← atStage .privateCopyCreation (PrivateCopy.create env)
    let result ← (createStages env mutation validator copy).attempt
    finish env copy result
  | .error error =>
    Effect.fail { stage := .privateCopyCreation, source := error, cleanupSource := none }

end Update

end Jet3.Atomic
