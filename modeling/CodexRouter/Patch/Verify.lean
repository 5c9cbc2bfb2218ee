import CodexRouter.Lib.Table
import CodexRouter.Patch.FileUpdate

set_option autoImplicit false

/-! # Verifying a patch

`verify_apply_patch_args_with_mode`: every hunk of a parsed patch is resolved against the
working directory and turned into the change it announces, computed from the files as they
are before any hunk is applied. The files are a map from resolved paths to texts.
-/

namespace CodexRouter.Patch

open Lib

inductive Hunk
  | addFile (path : String) (contents : Text)
  | deleteFile (path : String)
  | updateFile (path : String) (movePath : Option String) (chunks : List UpdateFileChunk)
  deriving DecidableEq

/-- The path a hunk affects, the destination for one that moves its file. -/
def Hunk.path : Hunk → String
  | .addFile path _ => path
  | .deleteFile path => path
  | .updateFile _ (some movePath) _ => movePath
  | .updateFile path none _ => path

/-- Resolution takes the path before the move. -/
def Hunk.resolvePath {U E : Type} (host : Host U E) (cwd : U) (hunk : Hunk) : Except E U :=
  match hunk with
  | .updateFile path _ _ => host.join cwd path
  | hunk => host.join cwd hunk.path

inductive ApplyPatchFileChange (U : Type)
  | add (content : Text)
  | delete (content : Text)
  | update (unifiedDiff : Text) (movePath : Option U) (newContent : Text)
  deriving DecidableEq

structure ApplyPatchArgs where
  patch : Text
  hunks : List Hunk
  workdir : Option String

structure ApplyPatchAction (U : Type) where
  changes : Table U (ApplyPatchFileChange U)
  updateFileMode : ApplyPatchFileUpdateMode
  patch : Text
  cwd : U
  deriving DecidableEq

/-- The two outcomes of verification; the other two of the source belong to the shell entry. -/
inductive MaybeApplyPatchVerified (U E : Type)
  | body (action : ApplyPatchAction U)
  | correctnessError (e : ApplyPatchError E)
  deriving DecidableEq

/-- `read_file_text` on the map of files. -/
def readText {U : Type} (files : U → Option Text) (path : U) : Except ErrorKind Text :=
  match files path with
  | some text => .ok text
  | none => .error .notFound

section Verify

variable {U E : Type} [DecidableEq U] (host : Host U E) (mode : ApplyPatchFileUpdateMode)
  (files : U → Option Text) (cwd : U)

/-- `cwd.join(path)?`. -/
def resolve (path : String) : Except (ApplyPatchError E) U :=
  (host.join cwd path).mapError .pathUri

def resolveMove : Option String → Except (ApplyPatchError E) (Option U)
  | none => .ok none
  | some path => do return some (← resolve host cwd path)

/-- The change a hunk on `path` announces. -/
def announce (path : U) : Hunk → Except (ApplyPatchError E) (ApplyPatchFileChange U)
  | .addFile _ contents => .ok (.add contents)
  | .deleteFile _ =>
    match readText files path with
    | .ok content => .ok (.delete content)
    | .error source =>
      .error (.ioError ("Failed to read " ++ host.inferredNativePathString path) source)
  | .updateFile _ movePath chunks => do
      let applied ← deriveNewContentsFromChunks host path chunks mode (readText files path)
      let movePath ← resolveMove host cwd movePath
      return .update (host.unifiedDiff 1 applied.originalContents applied.newContents) movePath
        applied.newContents

/-- The loop over the hunks, from the changes announced so far. -/
def announceAll : Table U (ApplyPatchFileChange U) → List Hunk →
    Except (ApplyPatchError E) (Table U (ApplyPatchFileChange U))
  | changes, [] => .ok changes
  | changes, hunk :: hunks => do
      let path ← (hunk.resolvePath host cwd).mapError .pathUri
      if changes.contains path then
        .error (.parseError (.invalidPatchError
          ("multiple operations target " ++ host.inferredNativePathString path)))
      else
        let change ← announce host mode files cwd path hunk
        announceAll (changes.insert path change) hunks

def effectiveCwd : Option String → Except (ApplyPatchError E) U
  | some dir => resolve host cwd dir
  | none => .ok cwd

def tryVerifyApplyPatchArgs (args : ApplyPatchArgs) :
    Except (ApplyPatchError E) (ApplyPatchAction U) := do
  let cwd ← effectiveCwd host cwd args.workdir
  let changes ← announceAll host mode files cwd Table.empty args.hunks
  return ⟨changes, mode, args.patch, cwd⟩

def verifyApplyPatchArgsWithMode (args : ApplyPatchArgs) : MaybeApplyPatchVerified U E :=
  match tryVerifyApplyPatchArgs host mode files cwd args with
  | .ok action => .body action
  | .error e => .correctnessError e

end Verify

end CodexRouter.Patch
