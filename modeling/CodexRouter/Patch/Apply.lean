import CodexRouter.Patch.Verify

set_option autoImplicit false

/-! # Applying a patch

`apply_hunks_to_files`: the hunks are applied one after another to the files as they are by
then, and a delta records the changes made. The files are a map from resolved paths to texts,
each a regular file; directories are not in it. Any operation on it may fail: `faults` says
which one does, by its number, with what kind of error, and what text a failed write leaves.
-/

namespace CodexRouter.Patch

inductive AppliedPatchFileChange (U : Type)
  | add (content : Text) (overwrittenContent : Option Text)
  | delete (content : Text)
  | update (movePath : Option U) (oldContent : Text) (overwrittenMoveContent : Option Text)
      (newContent : Text)

structure AppliedPatchChange (U : Type) where
  path : U
  change : AppliedPatchFileChange U

structure AppliedPatchDelta (U : Type) where
  changes : List (AppliedPatchChange U)
  exact : Bool

structure AffectedPaths where
  added : List String
  modified : List String
  deleted : List String

/-- The errors of `apply_hunks_to_files`: a message of its own, an operation that failed, with
the context put on it, an update that could not be derived, a path that does not resolve. -/
inductive ApplyError (E : Type)
  | message (text : String)
  | io (context : String) (source : ErrorKind)
  | update (e : ApplyPatchError E)
  | pathUri (e : E)

/-! ## The files and what can go wrong with them -/

structure Fault where
  kind : ErrorKind
  /-- What a failed write leaves at its target; `none` when it leaves the target alone. -/
  left : Option Text

/-- Which operations fail, by the number of operations before them. -/
abbrev Faults := Nat → Option Fault

/-- No operation fails. -/
def noFaults : Faults := fun _ => none

structure Metadata where
  isDirectory : Bool
  isFile : Bool
  isSymlink : Bool

/-- The state of one application: the files, the number of operations on them, and what the
function has recorded. -/
structure Session (U : Type) where
  files : U → Option Text
  ops : Nat
  delta : AppliedPatchDelta U
  affected : AffectedPaths

def Session.start {U : Type} (files : U → Option Text) : Session U :=
  ⟨files, 0, ⟨[], true⟩, ⟨[], [], []⟩⟩

namespace Session

variable {U : Type}

def setFile [DecidableEq U] (s : Session U) (path : U) (text : Option Text) : Session U :=
  { s with files := Function.update s.files path text }

def tick (s : Session U) : Session U := { s with ops := s.ops + 1 }

def inexact (s : Session U) : Session U := { s with delta := { s.delta with exact := false } }

def push (s : Session U) (change : AppliedPatchChange U) : Session U :=
  { s with delta := { s.delta with changes := s.delta.changes ++ [change] } }

/-- Overwrite an entry of the delta. -/
def overwrite (s : Session U) (i : Nat) (change : AppliedPatchChange U) : Session U :=
  { s with delta := { s.delta with changes := s.delta.changes.set i change } }

def addAdded (s : Session U) (path : String) : Session U :=
  { s with affected := { s.affected with added := s.affected.added ++ [path] } }

def addModified (s : Session U) (path : String) : Session U :=
  { s with affected := { s.affected with modified := s.affected.modified ++ [path] } }

def addDeleted (s : Session U) (path : String) : Session U :=
  { s with affected := { s.affected with deleted := s.affected.deleted ++ [path] } }

end Session

/-- A computation on the session that returns a value. -/
abbrev Io (U : Type) := StateM (Session U)

/-- A computation that may also end with an error. -/
abbrev Apply (U E : Type) := ExceptT (ApplyError E) (StateM (Session U))

section Operations

variable {U E : Type} [DecidableEq U] (faults : Faults)

/-- An operation: it fails as the faults have it, with `failed` its effect then, or acts. -/
def operation {α : Type} (failed : Fault → Session U → Session U)
    (act : Session U → Except ErrorKind α × Session U) : Io U (Except ErrorKind α) := fun s =>
  match faults s.ops with
  | some fault => (.error fault.kind, failed fault s.tick)
  | none => act s.tick

def readFileText (path : U) : Io U (Except ErrorKind Text) :=
  operation faults (fun _ s => s) fun s => (readText s.files path, s)

/-- Every path of the map is a regular file. -/
def getMetadata (path : U) : Io U (Except ErrorKind Metadata) :=
  operation faults (fun _ s => s) fun s =>
    ((readText s.files path).map fun _ => ⟨false, true, false⟩, s)

def createDirectory (_path : U) : Io U (Except ErrorKind Unit) :=
  operation faults (fun _ s => s) fun s => (.ok (), s)

def writeFile (path : U) (contents : Text) : Io U (Except ErrorKind Unit) :=
  operation faults
    (fun fault s => match fault.left with
      | some text => s.setFile path (some text)
      | none => s)
    fun s => (.ok (), s.setFile path (some contents))

def remove (path : U) : Io U (Except ErrorKind Unit) :=
  operation faults (fun _ s => s) fun s =>
    match s.files path with
    | some _ => (.ok (), s.setFile path none)
    | none => (.error .notFound, s)

/-! ## The helpers of `apply_hunks_to_files` -/

def ensureNotDirectory (path : U) : Io U (Except ErrorKind Unit) := do
  match ← getMetadata faults path with
  | .error e => return .error e
  | .ok metadata => return if metadata.isDirectory then .error .invalidInput else .ok ()

def removeFailureWasSideEffectFree (path : U) : Option Text → Io U Bool
  | some expectedContent => do
      match ← readFileText faults path with
      | .ok content => return content == expectedContent
      | .error _ => return false
  | none => return false

def noteExistingPathDeltaSupport (path : U) : Io U Unit := do
  match ← getMetadata faults path with
  | .ok metadata =>
    if metadata.isFile && !metadata.isSymlink then pure () else modify Session.inexact
  | .error .notFound => pure ()
  | .error _ => modify Session.inexact

def readOptionalFileTextForDelta (path : U) : Io U (Option Text) := do
  noteExistingPathDeltaSupport faults path
  match ← readFileText faults path with
  | .ok content => return some content
  | .error .notFound => return none
  | .error _ => do
      modify Session.inexact
      return none

/-- `with_context(..)?`. -/
def withContext {α : Type} (context : String) (op : Io U (Except ErrorKind α)) :
    Apply U E α := do
  match ← op with
  | .ok a => return a
  | .error source => throw (.io context source)

variable (host : Host U E)

def writeFileWithMissingParentRetry (path : U) (contents : Text) : Apply U E Unit := do
  match ← writeFile faults path contents with
  | .ok () => return ()
  | .error .notFound => do
      -- the second attempt is made also where no parent is known
      if let some parent := host.parent path then
        withContext ("Failed to create parent directories for "
          ++ host.inferredNativePathString path) (createDirectory faults parent)
      withContext ("Failed to write file " ++ host.inferredNativePathString path)
        (writeFile faults path contents)
  | .error e => throw (.io ("Failed to write file " ++ host.inferredNativePathString path) e)

/-- `try_write!`: a failed write may have changed its target, so the delta is exact no more. -/
def tryWrite (write : Apply U E Unit) : Apply U E Unit :=
  tryCatch write fun e => do
    modify Session.inexact
    throw e

/-- `fs.remove(..)` and what follows when it fails. -/
def removeOrFail (path : U) (context : String) (expected : Option Text) : Apply U E Unit := do
  match ← remove faults path with
  | .ok () => return ()
  | .error source => do
      -- the file is read again to see whether the failed removal left it alone
      if !(← removeFailureWasSideEffectFree faults path expected) then modify Session.inexact
      throw (.io context source)

/-! ## The hunks -/

variable (mode : ApplyPatchFileUpdateMode) (cwd : U)

def applyAdd (affectedPath : String) (path : U) (contents : Text) : Apply U E Unit := do
  let overwritten ← readOptionalFileTextForDelta faults path
  tryWrite (writeFileWithMissingParentRetry faults host path contents)
  modify fun s => (s.push ⟨path, .add contents overwritten⟩).addAdded affectedPath

def applyDelete (affectedPath : String) (path : U) : Apply U E Unit := do
  noteExistingPathDeltaSupport faults path
  let deletedContent := (← readFileText faults path).toOption
  -- a file whose text cannot be read is deleted all the same
  if deletedContent.isNone then modify Session.inexact
  let context := "Failed to delete file " ++ host.inferredNativePathString path
  withContext context (ensureNotDirectory faults path)
  removeOrFail faults path context deletedContent
  if let some content := deletedContent then
    modify fun s => s.push ⟨path, .delete content⟩
  modify fun s => s.addDeleted affectedPath

def applyMove (affectedPath : String) (path dest : U) (applied : AppliedPatch) :
    Apply U E Unit := do
  let overwritten ← readOptionalFileTextForDelta faults dest
  tryWrite (writeFileWithMissingParentRetry faults host dest applied.newContents)
  -- until the original is gone, the move is recorded as an addition
  let destWriteChangeIndex := (← get).delta.changes.length
  modify fun s => s.push ⟨dest, .add applied.newContents overwritten⟩
  let context := "Failed to remove original " ++ host.inferredNativePathString path
  withContext context (ensureNotDirectory faults path)
  removeOrFail faults path context (some applied.originalContents)
  let change := .update (some dest) applied.originalContents overwritten applied.newContents
  modify fun s => (s.overwrite destWriteChangeIndex ⟨path, change⟩).addModified affectedPath

def applyInPlace (affectedPath : String) (path : U) (applied : AppliedPatch) :
    Apply U E Unit := do
  tryWrite (withContext ("Failed to write file " ++ host.inferredNativePathString path)
    (writeFile faults path applied.newContents))
  let change := .update none applied.originalContents none applied.newContents
  modify fun s => (s.push ⟨path, change⟩).addModified affectedPath

def applyUpdate (affectedPath : String) (path : U) (movePath : Option String)
    (chunks : List UpdateFileChunk) : Apply U E Unit := do
  noteExistingPathDeltaSupport faults path
  match deriveNewContentsFromChunks host path chunks mode (← readFileText faults path) with
  | .error e => throw (.update e)
  | .ok applied =>
    match movePath with
    | none => applyInPlace faults host affectedPath path applied
    | some dest =>
      match host.join cwd dest with
      | .error e => throw (.pathUri e)
      | .ok dest => applyMove faults host affectedPath path dest applied

def applyHunk (hunk : Hunk) : Apply U E Unit :=
  match hunk.resolvePath host cwd with
  | .error e => throw (.pathUri e)
  | .ok path =>
    match hunk with
    | .addFile _ contents => applyAdd faults host hunk.path path contents
    | .deleteFile _ => applyDelete faults host hunk.path path
    | .updateFile _ movePath chunks =>
      applyUpdate faults host mode cwd hunk.path path movePath chunks

def applyEach : List Hunk → Apply U E Unit
  | [] => pure ()
  | hunk :: hunks => do
      applyHunk faults host mode cwd hunk
      applyEach hunks

def applyHunksToFiles (hunks : List Hunk) : Apply U E AffectedPaths := do
  if hunks.isEmpty then throw (.message "No files were modified.")
  applyEach faults host mode cwd hunks
  return (← get).affected

end Operations

end CodexRouter.Patch
