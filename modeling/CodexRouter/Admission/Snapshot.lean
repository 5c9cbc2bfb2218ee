import CodexRouter.Lib.Json

set_option autoImplicit false

/-! # The admission service: the score snapshot

`AdmissionService` of `tools/task-scheduler` reads its scores from a snapshot file before
each selection (`refresh`) and maps the working directory of a call to a task key through the
bindings of that file (`key_for`).

Everything outside the process is an `Env`: what opening and reading the file gives, what
`json.loads` makes of the bytes, how a path resolves on the file system, and the clock. A
Python exception is a value of `Exn`; which ones an `except` clause names is kept, since some
that the outside can raise are in none of them.
-/

namespace CodexRouter.Admission

open CodexRouter.Lib

/-- The exceptions that the modelled code can meet. A subclass stands under the class that an
`except` clause names: a decoding error is a `ValueError`, a lost connection an `OSError`. -/
inductive Exn
  | osError
  | valueError
  | typeError
  | keyError
  | attributeError
  /-- `math.isfinite` of an integer that no float can hold. -/
  | overflowError
  /-- `json.loads` of a text nested too deep. -/
  | recursionError
  /-- `Path.resolve` in a loop of symbolic links. -/
  | runtimeError
  /-- The task of the handler is cancelled. -/
  | cancelledError
deriving DecidableEq, Repr

/-- The `except` clause of `refresh`. -/
def Exn.caughtByRefresh : Exn → Bool
  | .osError | .valueError | .typeError | .keyError | .attributeError => true
  | _ => false

/-- The `except` clause of `handle`. -/
def Exn.caughtByHandle : Exn → Bool
  | .valueError | .typeError | .attributeError | .osError => true
  | _ => false

/-- A resolved path, by its parts. -/
abbrev Path := List String

/-- The snapshot file as read: how many bytes the read returns, and what `json.loads` makes of
them. -/
structure SnapshotFile where
  length : Nat
  loads : Except Exn Json

/-- What one dispatch finds outside the process. -/
structure Env where
  snapshot : Except Exn SnapshotFile
  resolve : String → Except Exn Path
  monotonic : ℚ

/-! ## Reading a snapshot -/

/-- `value[key]`. -/
def subscript : Json → String → Except Exn Json
  | .obj members, key =>
    match (Json.obj members).get? key with
    | some value => .ok value
    | none => .error .keyError
  | _, _ => .error .typeError

/-- Integers from here on have no nearest finite float. -/
def floatLimit : Int := 2 ^ 1024 - 2 ^ 970

/-- One value of `scores`: a finite number from 0 to 100. -/
def parseScore : Json → Except Exn ℚ
  | .int n =>
    if floatLimit ≤ |n| then .error .overflowError
    else if 0 ≤ n ∧ n ≤ 100 then .ok n else .error .valueError
  | .float (.finite q) => if 0 ≤ q ∧ q ≤ 100 then .ok q else .error .valueError
  | _ => .error .valueError

/-- One item of `bindings`, its path not yet checked. -/
def parseBinding (item : Json) : Except Exn (String × Json) := do
  match ← subscript item "cwd" with
  | .str cwd => return (cwd, ← subscript item "key")
  | _ => .error .typeError

/-- A binding names an absolute directory and a nonempty key. -/
def checkBinding : String × Json → Except Exn (String × String)
  | (cwd, .str key) =>
    if cwd.toList.head? = some '/' ∧ key ≠ "" then .ok (cwd, key) else .error .valueError
  | _ => .error .valueError

/-- The contents of a snapshot, and what the service remembers of the snapshots it read. -/
structure Scores where
  version : Int
  scores : List (String × ℚ)
  bindings : List (Path × String)
deriving DecidableEq

def Scores.init : Scores := ⟨-1, [], []⟩

/-- The three members of the document, before their contents are looked at. -/
def parseShape (value : Json) :
    Except Exn (Int × List (String × Json) × List Json) := do
  match ← subscript value "fit_version", ← subscript value "scores",
      ← subscript value "bindings" with
  | .int version, .obj scores, .arr bindings =>
    if version < 0 then .error .valueError else .ok (version, scores, bindings)
  | _, _, _ => .error .valueError

/-- The body of the `try` of `refresh` up to the comparison of versions. -/
def loadSnapshot (env : Env) : Except Exn Scores := do
  let file ← env.snapshot
  if 1024 * 1024 < file.length then .error .valueError
  let (version, scores, bindings) ← parseShape (← file.loads)
  let scores ← scores.mapM fun m => do return (m.1, ← parseScore m.2)
  let parsed ← bindings.mapM parseBinding
  let parsed ← parsed.mapM checkBinding
  let parsed ← parsed.mapM fun b => do return (← env.resolve b.1, b.2)
  if ¬ (parsed.map Prod.fst).Nodup then .error .valueError
  return ⟨version, scores, parsed⟩

/-- `refresh`, with the exception it lets through. `configured` says that the service was
given a snapshot path. -/
def refresh (configured : Bool) (env : Env) (known : Scores) : Scores × Option Exn :=
  if configured then
    match loadSnapshot env with
    | .ok snapshot => if known.version ≤ snapshot.version then (snapshot, none) else (known, none)
    | .error exn => (known, if exn.caughtByRefresh then none else some exn)
  else (known, none)

/-! ## The key of a directory -/

/-- The first of the bindings with the longest path. -/
def longest (found : List (Path × String)) : Option (Path × String) :=
  found.foldl (fun best b =>
    match best with
    | none => some b
    | some b' => if b'.1.length < b.1.length then some b else some b') none

/-- The task key of a directory: that of the closest bound directory above it. -/
def keyFor (env : Env) (known : Scores) (cwd : String) : Except Exn (Option String) := do
  let cwd ← env.resolve cwd
  return (longest (known.bindings.filter fun b => b.1.isPrefixOf cwd)).map Prod.snd

/-- `scores.get(key, 50.0)`. -/
def Scores.get (known : Scores) : Option String → ℚ
  | none => 50
  | some key => ((known.scores.find? fun e => e.1 = key).map Prod.snd).getD 50

end CodexRouter.Admission
