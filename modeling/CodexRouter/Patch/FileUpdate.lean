import Mathlib.Data.List.Sort
import Mathlib.Tactic
import CodexRouter.Lib.Chars

set_option autoImplicit false

/-! # The new contents of an updated file

`derive_new_contents_from_chunks` of the `apply-patch` crate: the lines of a file, the search
for the lines of each chunk (`seek_sequence`), the replacements they come to
(`compute_replacements`) and the text with the replacements made, in the two update modes.

Texts are lists of characters. A panic of the source (a slice or an insertion out of range, a
subtraction below zero) is the error `panicked`.
-/

namespace CodexRouter.Patch

open Lib

abbrev Text := List Char

inductive ApplyPatchFileUpdateMode
  | normalizeToLf
  | preserveLineEndings
  deriving DecidableEq

/-- The kinds of `io::Error` the code tells apart. -/
inductive ErrorKind
  | notFound
  | invalidInput
  | other
  deriving DecidableEq

inductive ParseError
  | invalidPatchError (message : String)
  | invalidHunkError (message : String) (lineNumber : Nat)
  deriving DecidableEq

/-- `ApplyPatchError` without `ImplicitInvocation`, which only the shell entry raises. `E` is
the error of a path that does not resolve. -/
inductive ApplyPatchError (E : Type)
  | parseError (e : ParseError)
  | ioError (context : String) (source : ErrorKind)
  | computeReplacements (message : String)
  | pathUri (e : E)
  | panicked
  deriving DecidableEq

structure UpdateFileChunk where
  changeContext : Option Text
  oldLines : List Text
  newLines : List Text
  contextLineIndices : List (Nat × Nat)
  isEndOfFile : Bool
  deriving DecidableEq

/-- What the code takes from elsewhere: path resolution and rendering of the `path-uri` crate,
and the unified diff, with its context radius, of the `similar` crate. -/
structure Host (U E : Type) where
  join : U → String → Except E U
  parent : U → Option U
  inferredNativePathString : U → String
  unifiedDiff : Nat → Text → Text → Text

/-! ## Lines -/

def normaliseChar (c : Char) : Char :=
  let n := c.toNat
  if (0x2010 ≤ n && n ≤ 0x2015) || n == 0x2212 then Char.ofNat 0x2D
  else if 0x2018 ≤ n && n ≤ 0x201B then Char.ofNat 0x27
  else if 0x201C ≤ n && n ≤ 0x201F then Char.ofNat 0x22
  else if n == 0xA0 || (0x2002 ≤ n && n ≤ 0x200A) || n == 0x202F || n == 0x205F
      || n == 0x3000 then Char.ofNat 0x20
  else c

def normalise (t : Text) : Text := (trim t).map normaliseChar

def joinLines (lines : List Text) : Text := List.intercalate ['\n'] lines

def endsEmpty (lines : List Text) : Bool := lines.getLast? == some []

/-! ## Finding a chunk's lines -/

/-- The lines from `i` on are those of `pattern`, compared with `same`. -/
def matchesAt (same : Text → Text → Bool) (lines pattern : List Text) (i : Nat) : Bool :=
  (List.zipWith same (lines.drop i) pattern).all id

/-- One pass of the search, over `searchStart ..= lines.len() - pattern.len()`. -/
def seekPass (same : Text → Text → Bool) (lines pattern : List Text) (searchStart : Nat) :
    Option Nat :=
  (List.range' searchStart (lines.length - pattern.length + 1 - searchStart)).find?
    (matchesAt same lines pattern)

def seekSequence (lines pattern : List Text) (start : Nat) (eof : Bool)
    (mode : ApplyPatchFileUpdateMode) : Option Nat :=
  if pattern.isEmpty then some start
  else if pattern.length > lines.length then none
  else
    let searchStart :=
      if eof then
        match mode with
        | .normalizeToLf => lines.length - pattern.length
        | .preserveLineEndings => max (lines.length - pattern.length) start
      else start
    -- decreasing strictness; a laxer pass runs only when the stricter ones found nothing
    seekPass (fun l p => l == p) lines pattern searchStart
      <|> seekPass (fun l p => trimEnd l == trimEnd p) lines pattern searchStart
      <|> seekPass (fun l p => trim l == trim p) lines pattern searchStart
      <|> seekPass (fun l p => normalise l == normalise p) lines pattern searchStart

/-! ## Replacements -/

/-- `(start_index, old_len, new_lines)`. -/
abbrev Replacement := Nat × Nat × List Text

section Compute

variable {E : Type}

/-- The line index after a chunk's `change_context`. -/
def seekContext (lines : List Text) (path : String) (mode : ApplyPatchFileUpdateMode)
    (lineIndex : Nat) : Option Text → Except (ApplyPatchError E) Nat
  | none => .ok lineIndex
  | some ctxLine =>
    match seekSequence lines [ctxLine] lineIndex false mode with
    | some idx => .ok (idx + 1)
    | none => .error (.computeReplacements
        ("Failed to find context '" ++ String.ofList ctxLine ++ "' in " ++ path))

/-- Where a chunk without old lines puts its new ones. -/
def insertionIdx (lines : List Text) : ApplyPatchFileUpdateMode → Nat
  | .normalizeToLf => if endsEmpty lines then lines.length - 1 else lines.length
  | .preserveLineEndings => lines.length

/-- The place of a chunk's old lines, with the pattern found and the lines that go in. When
the pattern ends with an empty line and is not found, it is looked for without that line, and
the new lines lose a final empty line too. -/
def locate (lines : List Text) (chunk : UpdateFileChunk) (lineIndex : Nat)
    (mode : ApplyPatchFileUpdateMode) : Option (Nat × List Text × List Text) :=
  match seekSequence lines chunk.oldLines lineIndex chunk.isEndOfFile mode with
  | some start => some (start, chunk.oldLines, chunk.newLines)
  | none =>
    if endsEmpty chunk.oldLines then
      let pattern := chunk.oldLines.dropLast
      let newSlice := if endsEmpty chunk.newLines then chunk.newLines.dropLast
        else chunk.newLines
      (seekSequence lines pattern lineIndex chunk.isEndOfFile mode).map fun start =>
        (start, pattern, newSlice)
    else none

/-- What is left of a chunk after its last context line. -/
def lastSegment (start : Nat) (pattern newSlice : List Text) (oldStart newStart : Nat) :
    List Replacement :=
  if oldStart ≠ pattern.length ∨ newStart ≠ newSlice.length then
    [(start + oldStart, pattern.length - oldStart, newSlice.drop newStart)]
  else []

/-- The replacements of a chunk between its context lines, which stay in place. -/
def aroundContext (start : Nat) (pattern newSlice : List Text) :
    Nat → Nat → List (Nat × Nat) → Except (ApplyPatchError E) (List Replacement)
  | oldStart, newStart, [] => .ok (lastSegment start pattern newSlice oldStart newStart)
  | oldStart, newStart, (oldContext, newContext) :: rest =>
    if oldContext ≥ pattern.length ∨ newContext ≥ newSlice.length then
      .ok (lastSegment start pattern newSlice oldStart newStart)
    else if oldStart ≠ oldContext ∨ newStart ≠ newContext then
      if oldContext < oldStart ∨ newContext < newStart then .error .panicked
      else do
        let later ← aroundContext start pattern newSlice (oldContext + 1) (newContext + 1) rest
        return (start + oldStart, oldContext - oldStart,
          (newSlice.drop newStart).take (newContext - newStart)) :: later
    else aroundContext start pattern newSlice (oldContext + 1) (newContext + 1) rest

def chunkReplacements (start : Nat) (pattern newSlice : List Text)
    (contextLineIndices : List (Nat × Nat)) :
    ApplyPatchFileUpdateMode → Except (ApplyPatchError E) (List Replacement)
  | .normalizeToLf => .ok [(start, pattern.length, newSlice)]
  | .preserveLineEndings => aroundContext start pattern newSlice 0 0 contextLineIndices

/-- The loop of `compute_replacements`, from a line index on. -/
def computeReplacementsFrom (lines : List Text) (path : String)
    (mode : ApplyPatchFileUpdateMode) :
    Nat → List UpdateFileChunk → Except (ApplyPatchError E) (List Replacement)
  | _, [] => .ok []
  | lineIndex, chunk :: chunks => do
      let lineIndex ← seekContext lines path mode lineIndex chunk.changeContext
      if chunk.oldLines.isEmpty then
        let later ← computeReplacementsFrom lines path mode lineIndex chunks
        return (insertionIdx lines mode, 0, chunk.newLines) :: later
      else
        match locate lines chunk lineIndex mode with
        | some (start, pattern, newSlice) =>
          let here ← chunkReplacements start pattern newSlice chunk.contextLineIndices mode
          let later ← computeReplacementsFrom lines path mode (start + pattern.length) chunks
          return here ++ later
        | none => .error (.computeReplacements ("Failed to find expected lines in " ++ path
            ++ ":\n" ++ String.ofList (joinLines chunk.oldLines)))

def computeReplacements (lines : List Text) (path : String) (chunks : List UpdateFileChunk)
    (mode : ApplyPatchFileUpdateMode) : Except (ApplyPatchError E) (List Replacement) := do
  let replacements ← computeReplacementsFrom lines path mode 0 chunks
  -- the sort is stable: replacements at one index stay in the order of their chunks
  return replacements.insertionSort fun r r' => r.1 ≤ r'.1

/-- One replacement: the old lines go, as far as there are any, and the new ones come in. -/
def replaceAt (lines : List Text) : Replacement → Except (ApplyPatchError E) (List Text)
  | (start, oldLen, newSegment) =>
    let kept := lines.take start ++ lines.drop (start + oldLen)
    if newSegment.isEmpty then .ok kept
    else if start > kept.length then .error .panicked
    else .ok (kept.take start ++ newSegment ++ kept.drop start)

/-- `apply_replacements`, from the last replacement to the first. -/
def applyReplacements (lines : List Text) (replacements : List Replacement) :
    Except (ApplyPatchError E) (List Text) :=
  replacements.reverse.foldlM replaceAt lines

end Compute

/-! ## Files with their line endings -/

inductive LineEnding
  | lf
  | crLf
  | cr
  deriving DecidableEq

def LineEnding.asStr : LineEnding → Text
  | .lf => ['\n']
  | .crLf => ['\r', '\n']
  | .cr => ['\r']

structure SourceLine where
  text : Text
  ending : Option LineEnding
  deriving DecidableEq

structure SourceFile where
  lines : List SourceLine
  preferredEnding : LineEnding
  deriving DecidableEq

/-- The lines of a text, of which `current` is the part of the current line read so far. -/
def sourceLines (current : Text) : Text → List SourceLine
  | [] => if current.isEmpty then [] else [⟨current, none⟩]
  | '\r' :: '\n' :: rest => ⟨current, some .crLf⟩ :: sourceLines [] rest
  | '\r' :: rest => ⟨current, some .cr⟩ :: sourceLines [] rest
  | '\n' :: rest => ⟨current, some .lf⟩ :: sourceLines [] rest
  | c :: rest => sourceLines (current ++ [c]) rest

def SourceFile.parse (contents : Text) : SourceFile :=
  let lines := sourceLines [] contents
  ⟨lines, (lines.findSome? SourceLine.ending).getD .lf⟩

def SourceFile.lineTexts (file : SourceFile) : List Text := file.lines.map SourceLine.text

/-- The lines with the replacements made, of which `sourceIndex` are already consumed. -/
def replaceLines {E : Type} (preferred : LineEnding) :
    Nat → List SourceLine → List Replacement → Except (ApplyPatchError E) (List SourceLine)
  | _, lines, [] => .ok lines
  | sourceIndex, lines, (start, oldLen, newSegment) :: replacements =>
    if start < sourceIndex then .error .panicked
    else do
      let kept := start - sourceIndex
      let later ← replaceLines preferred (start + oldLen) (lines.drop (kept + oldLen))
        replacements
      return lines.take kept ++ newSegment.map (fun text => ⟨text, some preferred⟩) ++ later

def SourceFile.applyReplacements {E : Type} (file : SourceFile)
    (replacements : List Replacement) : Except (ApplyPatchError E) SourceFile := do
  let lines ← replaceLines file.preferredEnding 0 file.lines replacements
  return { file with
    lines := lines.map fun line =>
      { line with ending := some (line.ending.getD file.preferredEnding) } }

def SourceFile.intoContents (file : SourceFile) : Text :=
  file.lines.flatMap fun line => line.text ++ (line.ending.map LineEnding.asStr).getD []

/-! ## New contents -/

structure AppliedPatch where
  originalContents : Text
  newContents : Text
  deriving DecidableEq

/-- The text a file with the text `original` gets. -/
def updatedText {E : Type} (pathText : String) (chunks : List UpdateFileChunk)
    (mode : ApplyPatchFileUpdateMode) (original : Text) : Except (ApplyPatchError E) Text :=
  match mode with
  | .normalizeToLf => do
      let split := original.splitOn '\n'
      let lines := if endsEmpty split then split.dropLast else split
      let replacements ← computeReplacements lines pathText chunks mode
      let newLines ← applyReplacements lines replacements
      return joinLines (if endsEmpty newLines then newLines else newLines ++ [[]])
  | .preserveLineEndings => do
      let file := SourceFile.parse original
      let replacements ← computeReplacements file.lineTexts pathText chunks mode
      let file ← file.applyReplacements replacements
      return file.intoContents

/-- `derive_new_contents_from_chunks`, given the outcome of its one read. -/
def deriveNewContentsFromChunks {U E : Type} (host : Host U E) (path : U)
    (chunks : List UpdateFileChunk) (mode : ApplyPatchFileUpdateMode)
    (read : Except ErrorKind Text) : Except (ApplyPatchError E) AppliedPatch :=
  match read with
  | .error source => .error (.ioError
      ("Failed to read file to update " ++ host.inferredNativePathString path) source)
  | .ok original => do
      let new ← updatedText (host.inferredNativePathString path) chunks mode original
      return ⟨original, new⟩

end CodexRouter.Patch
