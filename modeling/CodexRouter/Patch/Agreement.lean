import CodexRouter.Lib.Fallible
import CodexRouter.Lib.Outcome
import CodexRouter.Patch.Apply

set_option autoImplicit false

/-! # What is verified is what is applied

Verification computes every change from the files as they are at the start; application runs
hunk by hunk on files that earlier hunks have changed. The two agree when no move ends on a
path that another change is about: then each hunk finds its own file untouched, and the files
at the end are those at the start with the announced changes carried out.
-/

namespace CodexRouter.Patch

open Lib

variable {U E : Type} [DecidableEq U]

/-! ## Changes carried out -/

/-- The destination of a change that moves its file. -/
def ApplyPatchFileChange.movePath {U : Type} : ApplyPatchFileChange U → Option U
  | .update _ movePath _ => movePath
  | _ => none

/-- What a change on `path` says of the files afterwards. -/
def ApplyPatchFileChange.Done (path : U) (after : U → Option Text) :
    ApplyPatchFileChange U → Prop
  | .add content => after path = some content
  | .delete _ => after path = none
  | .update _ none new => after path = some new
  | .update _ (some dest) new => after dest = some new ∧ after path = none

/-- `after` is `before` with exactly `changes` carried out. -/
structure CarriedOut (changes : Table U (ApplyPatchFileChange U))
    (before after : U → Option Text) : Prop where
  done : ∀ path change, changes.get? path = some change → change.Done path after
  other : ∀ path, changes.get? path = none →
    (∀ source change, changes.get? source = some change → change.movePath ≠ some path) →
    after path = before path

/-- No move ends on a path that a change is about, its own included, and no two moves end on
one path. -/
structure Separate (changes : Table U (ApplyPatchFileChange U)) : Prop where
  fresh : ∀ path change dest, changes.get? path = some change → change.movePath = some dest →
    changes.get? dest = none
  apart : ∀ path path' change change' dest, changes.get? path = some change →
    changes.get? path' = some change' → change.movePath = some dest →
    change'.movePath = some dest → path = path'

theorem separate_iff (changes : Table U (ApplyPatchFileChange U)) :
    (∀ e ∈ changes.entries, ∀ dest ∈ e.2.movePath, changes.get? dest = none ∧
      ∀ e' ∈ changes.entries, e'.2.movePath = some dest → e.1 = e'.1) ↔ Separate changes := by
  constructor
  · intro h
    constructor
    · intro path change dest hpath hdest
      exact (h _ (Table.get?_eq_some_iff.mp hpath) dest hdest).1
    · intro path path' change change' dest hpath hpath' hdest hdest'
      exact (h _ (Table.get?_eq_some_iff.mp hpath) dest hdest).2 _
        (Table.get?_eq_some_iff.mp hpath') hdest'
  · rintro h ⟨path, change⟩ he dest hdest
    have hpath : changes.get? path = some change := Table.get?_eq_some_iff.mpr he
    refine ⟨h.fresh path change dest hpath hdest, ?_⟩
    rintro ⟨path', change'⟩ he' hdest'
    exact h.apart path path' change change' dest hpath (Table.get?_eq_some_iff.mpr he') hdest
      hdest'

instance (changes : Table U (ApplyPatchFileChange U)) : Decidable (Separate changes) :=
  decidable_of_iff _ (separate_iff changes)

/-- The files after one change. -/
def ApplyPatchFileChange.carry (path : U) (files : U → Option Text) :
    ApplyPatchFileChange U → U → Option Text
  | .add content => Function.update files path (some content)
  | .delete _ => Function.update files path none
  | .update _ none new => Function.update files path (some new)
  | .update _ (some dest) new => Function.update (Function.update files dest (some new)) path none

/-! ## Applying one hunk, with no operation failing -/

/-- `x` ends well from `s`, with the files `files`. -/
def Leaves (x : Apply U E Unit) (s : Session U) (files : U → Option Text) : Prop :=
  ∃ s', outcome x s = (.ok (), s') ∧ s'.files = files

omit [DecidableEq U] in
theorem Leaves.bind {α : Type} {x : Apply U E α} {f : α → Apply U E Unit} {s s' : Session U}
    {a : α} {files : U → Option Text} (hx : outcome x s = (.ok a, s'))
    (hf : Leaves (f a) s' files) : Leaves (x >>= f) s files := by
  obtain ⟨s₁, hs₁, hfiles⟩ := hf
  exact ⟨s₁, by rw [outcome_bind_of_ok hx, hs₁], hfiles⟩

omit [DecidableEq U] in
theorem Leaves.modify (f : Session U → Session U) (s : Session U) :
    Leaves (modify f : Apply U E PUnit) s (f s).files :=
  ⟨f s, rfl, rfl⟩

section NoFaults

omit [DecidableEq U]

theorem readText_eq_ok {files : U → Option Text} {path : U} {text : Text}
    (h : readText files path = .ok text) : files path = some text := by
  unfold readText at h
  split at h <;> cases h
  assumption

theorem run_readFileText (path : U) (s : Session U) :
    (readFileText noFaults path).run s = (readText s.files path, s.tick) := rfl

theorem run_getMetadata (path : U) (s : Session U) :
    (getMetadata noFaults path).run s
      = ((readText s.files path).map fun _ => ⟨false, true, false⟩, s.tick) := rfl

theorem run_noteExistingPathDeltaSupport (path : U) (s : Session U) :
    (noteExistingPathDeltaSupport noFaults path).run s = ((), s.tick) := by
  unfold noteExistingPathDeltaSupport
  rw [StateT.run_bind, run_getMetadata]
  cases hfile : s.files path <;> simp [readText, hfile, Except.map] <;> rfl

theorem run_readOptionalFileTextForDelta (path : U) (s : Session U) :
    (readOptionalFileTextForDelta noFaults path).run s = (s.files path, s.tick.tick) := by
  unfold readOptionalFileTextForDelta
  rw [StateT.run_bind, run_noteExistingPathDeltaSupport]
  show ((readFileText noFaults path >>= _).run s.tick) = _
  rw [StateT.run_bind, run_readFileText]
  cases hfile : s.files path <;> simp [readText, hfile, Session.tick] <;> rfl

theorem run_ensureNotDirectory {path : U} {s : Session U} {text : Text}
    (hfile : s.files path = some text) :
    (ensureNotDirectory noFaults path).run s = (.ok (), s.tick) := by
  unfold ensureNotDirectory
  rw [StateT.run_bind, run_getMetadata]
  simp only [readText, hfile, Except.map]
  rfl

end NoFaults

variable (host : Host U E)

theorem outcome_tryWrite (path : U) (contents : Text) (s : Session U) :
    outcome (tryWrite (writeFileWithMissingParentRetry noFaults host path contents)) s
      = (.ok (), s.tick.setFile path (some contents)) := by
  rfl

variable {path : U} {s : Session U} {change : ApplyPatchFileChange U}

theorem outcome_removeOrFail {text : Text} (hfile : s.files path = some text) (context : String)
    (expected : Option Text) :
    outcome (removeOrFail noFaults path context expected : Apply U E Unit) s
      = (.ok (), s.tick.setFile path none) := by
  have hremove : (remove noFaults path).run s = (.ok (), s.tick.setFile path none) := by
    have htick : s.tick.files path = some text := hfile
    simp only [remove, operation, noFaults, StateT.run, htick]
  rw [removeOrFail, outcome_bind_of_ok (outcome_lift hremove)]
  rfl

omit [DecidableEq U] in
theorem outcome_ensureNotDirectory {path : U} {s : Session U} {text : Text}
    (hfile : s.files path = some text) (context : String) :
    outcome (withContext context (ensureNotDirectory noFaults path) : Apply U E Unit) s
      = (.ok (), s.tick) := by
  rw [withContext, outcome_bind_of_ok (outcome_lift (run_ensureNotDirectory hfile))]
  rfl

theorem applyAdd_leaves (affectedPath : String) (path : U) (contents : Text) (s : Session U) :
    Leaves (applyAdd noFaults host affectedPath path contents) s
      (Function.update s.files path (some contents)) := by
  refine Leaves.bind (outcome_lift (run_readOptionalFileTextForDelta path s)) ?_
  refine Leaves.bind (outcome_tryWrite host path contents _) ?_
  exact Leaves.modify _ _

theorem applyDelete_leaves {content : Text} (hfile : s.files path = some content)
    (affectedPath : String) :
    Leaves (applyDelete noFaults host affectedPath path) s
      (Function.update s.files path none) := by
  refine Leaves.bind (outcome_lift (run_noteExistingPathDeltaSupport path s)) ?_
  refine Leaves.bind (outcome_lift (run_readFileText path s.tick)) ?_
  have hread : readText s.tick.files path = .ok content := by
    have htick : s.tick.files path = some content := hfile
    unfold readText
    rw [htick]
  rw [hread]
  refine Leaves.bind (outcome_ensureNotDirectory (s := s.tick.tick) hfile _) ?_
  refine Leaves.bind (outcome_removeOrFail (s := s.tick.tick.tick) hfile _ _) ?_
  exact Leaves.bind (outcome_modify _ _) (Leaves.modify _ _)

theorem applyInPlace_leaves (affectedPath : String) (path : U) (applied : AppliedPatch)
    (s : Session U) :
    Leaves (applyInPlace noFaults host affectedPath path applied) s
      (Function.update s.files path (some applied.newContents)) := by
  have hwrite : outcome (tryWrite (withContext
      ("Failed to write file " ++ host.inferredNativePathString path)
      (writeFile noFaults path applied.newContents)) : Apply U E Unit) s
      = (.ok (), s.tick.setFile path (some applied.newContents)) := by
    rfl
  exact Leaves.bind hwrite (Leaves.modify _ _)

theorem applyMove_leaves {dest : U} {applied : AppliedPatch}
    (hfile : s.files path = some applied.originalContents) (affectedPath : String) :
    Leaves (applyMove noFaults host affectedPath path dest applied) s
      (Function.update (Function.update s.files dest (some applied.newContents)) path none) := by
  -- the source is still there when the destination is written, be it the same path
  obtain ⟨text, htext⟩ : ∃ text,
      Function.update s.files dest (some applied.newContents) path = some text := by
    by_cases hp : path = dest
    · exact ⟨_, by rw [hp, Function.update_self]⟩
    · exact ⟨_, by rw [Function.update_of_ne hp, hfile]⟩
  refine Leaves.bind (outcome_lift (run_readOptionalFileTextForDelta dest s)) ?_
  refine Leaves.bind (outcome_tryWrite host dest applied.newContents _) ?_
  refine Leaves.bind (outcome_get _) ?_
  refine Leaves.bind (outcome_modify _ _) ?_
  refine Leaves.bind (outcome_ensureNotDirectory htext _) ?_
  refine Leaves.bind (outcome_removeOrFail htext _ _) ?_
  exact Leaves.modify _ _

variable {host} {mode : ApplyPatchFileUpdateMode} {cwd path : U} {files : U → Option Text}

omit [DecidableEq U] in
theorem derive_eq_ok {chunks : List UpdateFileChunk} {read : Except ErrorKind Text}
    {applied : AppliedPatch}
    (h : deriveNewContentsFromChunks host path chunks mode read = .ok applied) :
    read = .ok applied.originalContents := by
  cases read with
  | error source => cases h
  | ok original =>
    obtain ⟨new, -, hnew⟩ := bind_eq_ok_iff.mp h
    cases hnew
    rfl

theorem applyUpdate_leaves {movePath : Option String} {dest : Option U}
    {chunks : List UpdateFileChunk} {applied : AppliedPatch}
    (hderive : deriveNewContentsFromChunks host path chunks mode (readText s.files path)
      = .ok applied) (hmove : resolveMove host cwd movePath = .ok dest) (affectedPath : String)
    (diff : Text) :
    Leaves (applyUpdate noFaults host mode cwd affectedPath path movePath chunks) s
      ((ApplyPatchFileChange.update diff dest applied.newContents).carry path s.files) := by
  refine Leaves.bind (outcome_lift (run_noteExistingPathDeltaSupport path s)) ?_
  refine Leaves.bind (outcome_lift (run_readFileText path s.tick)) ?_
  have htick : readText s.tick.files path = readText s.files path := rfl
  rw [htick, hderive]
  cases movePath with
  | none =>
    cases hmove
    exact applyInPlace_leaves host affectedPath path applied s.tick.tick
  | some target =>
    obtain ⟨d, hd, hdest⟩ := bind_eq_ok_iff.mp hmove
    cases hdest
    have hfile : s.files path = some applied.originalContents :=
      readText_eq_ok (derive_eq_ok hderive)
    simp only [mapError_eq_ok_iff.mp hd]
    exact applyMove_leaves host (s := s.tick.tick) hfile affectedPath

/-- **One hunk.** A hunk that finds its file as it was verified makes the change announced. -/
theorem applyHunk_leaves {hunk : Hunk} (hpath : hunk.resolvePath host cwd = .ok path)
    (hannounce : announce host mode files cwd path hunk = .ok change)
    (hsame : s.files path = files path) :
    Leaves (applyHunk noFaults host mode cwd hunk) s (change.carry path s.files) := by
  have hread : readText files path = readText s.files path := by rw [readText, readText, hsame]
  rw [applyHunk, hpath]
  cases hunk with
  | addFile p contents =>
    cases hannounce
    exact applyAdd_leaves host _ path contents s
  | deleteFile p =>
    cases hfile : s.files path with
    | none => simp [announce, readText, ← hsame, hfile] at hannounce
    | some content =>
      simp only [announce, readText, ← hsame, hfile] at hannounce
      cases hannounce
      exact applyDelete_leaves host hfile _
  | updateFile p movePath chunks =>
    obtain ⟨applied, hderive, hrest⟩ := bind_eq_ok_iff.mp hannounce
    obtain ⟨dest, hdest, hchange⟩ := bind_eq_ok_iff.mp hrest
    cases hchange
    rw [hread] at hderive
    exact applyUpdate_leaves hderive hdest _ _

/-! ## The changes one after another -/

theorem carry_of_ne {q : U} (hpath : q ≠ path) (hmove : change.movePath ≠ some q) :
    change.carry path files q = files q := by
  cases change with
  | add content => exact Function.update_of_ne hpath _ _
  | delete content => exact Function.update_of_ne hpath _ _
  | update diff movePath new =>
    cases movePath with
    | none => exact Function.update_of_ne hpath _ _
    | some dest =>
      have hdest : q ≠ dest := fun h => hmove (by rw [h]; rfl)
      show Function.update (Function.update files dest _) path none q = _
      rw [Function.update_of_ne hpath, Function.update_of_ne hdest]

theorem carry_done (hmove : change.movePath ≠ some path) :
    change.Done path (change.carry path files) := by
  cases change with
  | add content => exact Function.update_self _ _ _
  | delete content => exact Function.update_self _ _ _
  | update diff movePath new =>
    cases movePath with
    | none => exact Function.update_self _ _ _
    | some dest =>
      have hdest : dest ≠ path := fun h => hmove (by rw [← h]; rfl)
      refine ⟨?_, Function.update_self _ _ _⟩
      show Function.update (Function.update files dest _) path none dest = _
      rw [Function.update_of_ne hdest, Function.update_self]

omit [DecidableEq U] in
theorem ApplyPatchFileChange.Done.congr {change : ApplyPatchFileChange U}
    {after after' : U → Option Text} (h : change.Done path after)
    (hpath : after' path = after path)
    (hmove : ∀ dest, change.movePath = some dest → after' dest = after dest) :
    change.Done path after' := by
  cases change with
  | add content => exact hpath.trans h
  | delete content => exact hpath.trans h
  | update diff movePath new =>
    cases movePath with
    | none => exact hpath.trans h
    | some dest => exact ⟨(hmove dest rfl).trans h.1, hpath.trans h.2⟩

section Insert

variable {changes : Table U (ApplyPatchFileChange U)} {change : ApplyPatchFileChange U}
  {after : U → Option Text}

theorem get?_insert_of_get? {q : U} {old : ApplyPatchFileChange U}
    (hnew : changes.get? path = none) (hq : changes.get? q = some old) :
    q ≠ path ∧ (changes.insert path change).get? q = some old := by
  have hne : q ≠ path := fun h => by rw [h, hnew] at hq; cases hq
  exact ⟨hne, by rw [Table.get?_insert, if_neg hne, hq]⟩

theorem Separate.of_insert (hsep : Separate (changes.insert path change))
    (hnew : changes.get? path = none) : Separate changes where
  fresh q old dest hq hdest := by
    have hins := hsep.fresh q old dest (get?_insert_of_get? hnew hq).2 hdest
    rw [Table.get?_insert] at hins
    split at hins
    · cases hins
    · exact hins
  apart q q' old old' dest hq hq' := hsep.apart q q' old old' dest
    (get?_insert_of_get? hnew hq).2 (get?_insert_of_get? hnew hq').2

/-- No move made so far ends on the path of the next change. -/
theorem Separate.not_moved_here (hsep : Separate (changes.insert path change))
    (hnew : changes.get? path = none) {q : U} {old : ApplyPatchFileChange U}
    (hq : changes.get? q = some old) : old.movePath ≠ some path := by
  intro hmove
  have hnone := hsep.fresh q old path (get?_insert_of_get? hnew hq).2 hmove
  rw [Table.get?_insert, if_pos rfl] at hnone
  cases hnone

section

variable (h : CarriedOut changes files after) (hnew : changes.get? path = none)
  (hsep : Separate (changes.insert path change))

include h hnew hsep

/-- The next change finds its file as it was at the start. -/
theorem CarriedOut.untouched :
    after path = files path :=
  h.other path hnew fun _ _ hq => hsep.not_moved_here hnew hq

/-- Carrying out one more change undoes none of the earlier ones. -/
theorem CarriedOut.insert :
    CarriedOut (changes.insert path change) files (change.carry path after) := by
  have hself : (changes.insert path change).get? path = some change := by
    rw [Table.get?_insert, if_pos rfl]
  constructor
  · intro q c hq
    rw [Table.get?_insert] at hq
    split at hq
    · rename_i hqp
      cases hq
      rw [hqp]
      exact carry_done fun hmove => by
        rw [hsep.fresh path change path hself hmove] at hself
        cases hself
    · rename_i hqp
      have hins : (changes.insert path change).get? q = some c :=
        (get?_insert_of_get? hnew hq).2
      refine (h.done q c hq).congr (carry_of_ne hqp fun hmove => ?_) fun dest hdest => ?_
      · -- the destination of the new change is no earlier path
        rw [hsep.fresh path change q hself hmove] at hins
        cases hins
      · -- nor an earlier destination
        refine carry_of_ne (fun hd => ?_) fun hmove => hqp ?_
        · exact hsep.not_moved_here hnew hq (by rw [hdest, hd])
        · exact hsep.apart q path c change dest hins hself hdest hmove
  · intro q hq hmoves
    rw [Table.get?_insert] at hq
    split at hq
    · cases hq
    · rename_i hqp
      rw [carry_of_ne hqp (hmoves path change hself)]
      exact h.other q hq fun source c hc => hmoves source c (get?_insert_of_get? hnew hc).2

end

end Insert

/-! ## Whole patches -/

section Patch

variable {changes final : Table U (ApplyPatchFileChange U)} {hunk : Hunk} {hunks : List Hunk}

theorem announceAll_cons
    (h : announceAll host mode files cwd changes (hunk :: hunks) = .ok final) :
    ∃ path change, hunk.resolvePath host cwd = .ok path ∧ changes.get? path = none ∧
      announce host mode files cwd path hunk = .ok change ∧
      announceAll host mode files cwd (changes.insert path change) hunks = .ok final := by
  obtain ⟨path, hpath, hrest⟩ := bind_eq_ok_iff.mp h
  split at hrest
  · cases hrest
  · rename_i hnew
    obtain ⟨change, hchange, hfinal⟩ := bind_eq_ok_iff.mp hrest
    refine ⟨path, change, mapError_eq_ok_iff.mp hpath, ?_, hchange, hfinal⟩
    simpa [Table.contains] using hnew

theorem Separate.of_announceAll (hsep : Separate final)
    (h : announceAll host mode files cwd changes hunks = .ok final) : Separate changes := by
  induction hunks generalizing changes with
  | nil =>
    cases h
    exact hsep
  | cons hunk hunks ih =>
    obtain ⟨path, change, -, hnew, -, hrest⟩ := announceAll_cons h
    exact (ih hrest).of_insert hnew

/-- From files with the earlier changes carried out, the hunks carry out the rest. -/
theorem applyEach_carriedOut {s : Session U} (hdone : CarriedOut changes files s.files)
    (h : announceAll host mode files cwd changes hunks = .ok final) (hsep : Separate final) :
    ∃ s', outcome (applyEach noFaults host mode cwd hunks) s = (.ok (), s') ∧
      CarriedOut final files s'.files := by
  induction hunks generalizing changes s with
  | nil =>
    cases h
    exact ⟨s, rfl, hdone⟩
  | cons hunk hunks ih =>
    obtain ⟨path, change, hpath, hnew, hchange, hrest⟩ := announceAll_cons h
    have hsep' := hsep.of_announceAll hrest
    obtain ⟨s₁, hs₁, hfiles⟩ :=
      applyHunk_leaves hpath hchange (hdone.untouched hnew hsep')
    have hdone₁ : CarriedOut (changes.insert path change) files s₁.files := by
      rw [hfiles]
      exact hdone.insert hnew hsep'
    obtain ⟨s', hs', hfinal⟩ := ih hdone₁ hrest
    refine ⟨s', ?_, hfinal⟩
    rw [applyEach, outcome_bind_of_ok hs₁, hs']

end Patch

/-- **Verified patches apply as announced.** When a patch with at least one hunk verifies and
its moves are apart from each other and from every path it changes, applying its hunks in the
directory of the action succeeds, and the files at the end are those at the start with exactly
the announced changes carried out. -/
theorem verified_patch_applies {args : ApplyPatchArgs} {action : ApplyPatchAction U}
    (hverified : verifyApplyPatchArgsWithMode host mode files cwd args = .body action)
    (hhunks : args.hunks ≠ []) (hsep : Separate action.changes) :
    ∃ affected s, outcome (applyHunksToFiles noFaults host action.updateFileMode action.cwd
        args.hunks) (Session.start files) = (.ok affected, s) ∧
      CarriedOut action.changes files s.files := by
  have hok : tryVerifyApplyPatchArgs host mode files cwd args = .ok action := by
    unfold verifyApplyPatchArgsWithMode at hverified
    split at hverified <;> cases hverified
    assumption
  obtain ⟨effectiveCwd, -, hrest⟩ := bind_eq_ok_iff.mp hok
  obtain ⟨changes, hchanges, haction⟩ := bind_eq_ok_iff.mp hrest
  cases haction
  have hstart : CarriedOut Table.empty files (Session.start files).files :=
    ⟨fun _ _ h => (by cases h), fun _ _ _ => rfl⟩
  obtain ⟨s, hs, hdone⟩ := applyEach_carriedOut hstart hchanges hsep
  refine ⟨s.affected, s, ?_, hdone⟩
  have hempty : args.hunks.isEmpty = false := by simpa using hhunks
  simp only [applyHunksToFiles, hempty]
  exact (outcome_bind_of_ok hs).trans rfl

/-- Paths that resolve to the length of their spelling. -/
def flatHost : Host Nat Empty :=
  ⟨fun _ path => .ok path.length, fun _ => none, fun _ => "", fun _ _ _ => []⟩

def twoFiles : Nat → Option Text
  | 1 => some "one\ntwo\n".toList
  | 2 => some "old\n".toList
  | _ => none

/-- An addition, a deletion and an update that moves its file. -/
def threeHunks : ApplyPatchArgs :=
  ⟨[], [.addFile "new" "fresh\n".toList, .deleteFile "bb",
    .updateFile "a" (some "dest") [⟨none, ["two".toList], ["three".toList], [], false⟩]], none⟩

def threeChanges : ApplyPatchAction Nat :=
  ⟨⟨[(3, .add "fresh\n".toList), (2, .delete "old\n".toList),
    (1, .update [] (some 4) "one\nthree\n".toList)], by decide⟩, .normalizeToLf, [], 0⟩

theorem verified_patch_applies_threeHunks :
    verifyApplyPatchArgsWithMode flatHost .normalizeToLf twoFiles 0 threeHunks
        = .body threeChanges ∧
      ∃ affected s, outcome (applyHunksToFiles noFaults flatHost threeChanges.updateFileMode
          threeChanges.cwd threeHunks.hunks) (Session.start twoFiles) = (.ok affected, s) ∧
        CarriedOut threeChanges.changes twoFiles s.files := by
  have hverified : verifyApplyPatchArgsWithMode flatHost .normalizeToLf twoFiles 0 threeHunks
      = .body threeChanges := by decide +kernel
  exact ⟨hverified, verified_patch_applies hverified (by decide) (by decide +kernel)⟩

/-- A patch with no hunk verifies and is refused when applied. A move onto its own source
verifies, and applying it removes the file. -/
theorem verified_patch_not_carried_out :
    (∃ action, verifyApplyPatchArgsWithMode flatHost .normalizeToLf twoFiles 0 ⟨[], [], none⟩
        = .body action ∧
      (outcome (applyHunksToFiles noFaults flatHost action.updateFileMode action.cwd [])
        (Session.start twoFiles)).1 = .error (.message "No files were modified.")) ∧
    ∃ hunks action, verifyApplyPatchArgsWithMode flatHost .normalizeToLf twoFiles 0
        ⟨[], hunks, none⟩ = .body action ∧
      action.changes.get? 1 = some (.update [] (some 1) "one\nthree\n".toList) ∧
      (outcome (applyHunksToFiles noFaults flatHost action.updateFileMode action.cwd hunks)
        (Session.start twoFiles)).2.files 1 = none := by
  refine ⟨⟨⟨Table.empty, .normalizeToLf, [], 0⟩, rfl, rfl⟩, ?_⟩
  refine ⟨[.updateFile "a" (some "a") [⟨none, ["two".toList], ["three".toList], [], false⟩]],
    ⟨⟨[(1, .update [] (some 1) "one\nthree\n".toList)], by decide⟩, .normalizeToLf, [], 0⟩,
    ?_, ?_, ?_⟩ <;> decide +kernel

end CodexRouter.Patch
