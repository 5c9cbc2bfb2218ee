import CodexRouter.Patch.Agreement

set_option autoImplicit false

/-! # An exact delta tells what happened to the files

Any operation of `apply_hunks_to_files` may fail, and a failed write may leave anything at its
target. The delta stays exact only as long as its changes, replayed on the files of the start,
give the files as they are. One kind of hunk breaks this: a move onto its own source removes
the file it has just written, while its entry of the delta puts the new text there.
-/

namespace CodexRouter.Patch

open Lib

variable {U E : Type} [DecidableEq U]

/-! ## Replaying a delta -/

/-- The files after one change of a delta. A move takes the source away and then sets the
destination, as the tracker of a turn's changes does. -/
def AppliedPatchChange.replay (files : U → Option Text) (c : AppliedPatchChange U) :
    U → Option Text :=
  match c.change with
  | .add content _ => Function.update files c.path (some content)
  | .delete _ => Function.update files c.path none
  | .update none _ _ new => Function.update files c.path (some new)
  | .update (some dest) _ _ new =>
    Function.update (Function.update files c.path none) dest (some new)

def replay (changes : List (AppliedPatchChange U)) (files : U → Option Text) : U → Option Text :=
  changes.foldl AppliedPatchChange.replay files

theorem replay_concat (changes : List (AppliedPatchChange U)) (c : AppliedPatchChange U)
    (files : U → Option Text) :
    replay (changes ++ [c]) files = c.replay (replay changes files) := by
  simp [replay]

/-- An exact delta, replayed on the files of the start, gives the files as they are. -/
def InStep (start : U → Option Text) (s : Session U) : Prop :=
  s.delta.exact = true → replay s.delta.changes start = s.files

/-! ## Operations that change no file -/

section Silent

variable {s t u : Session U} (faults : Faults) (path : U)

/-- `t` has the files and the changes of `s`, and its delta is not exact if that of `s` is not. -/
structure Silent {U : Type} (s t : Session U) : Prop where
  files : t.files = s.files
  changes : t.delta.changes = s.delta.changes
  exact : t.delta.exact = true → s.delta.exact = true

omit [DecidableEq U] in
theorem Silent.refl (s : Session U) : Silent s s := ⟨rfl, rfl, id⟩

omit [DecidableEq U] in
theorem Silent.trans (hst : Silent s t) (htu : Silent t u) : Silent s u :=
  ⟨htu.files.trans hst.files, htu.changes.trans hst.changes, fun h => hst.exact (htu.exact h)⟩

theorem Silent.inStep {start : U → Option Text} (hst : Silent s t) (h : InStep start s) :
    InStep start t := by
  grind [InStep, cases Silent]

omit [DecidableEq U]

section

variable (s : Session U)

theorem silent_tick : Silent s s.tick := ⟨rfl, rfl, id⟩

theorem silent_inexact : Silent s s.inexact := ⟨rfl, rfl, fun h => by cases h⟩

/-- An operation fails as the faults have it, or acts. -/
theorem run_operation {α : Type} (failed : Fault → Session U → Session U)
    (act : Session U → Except ErrorKind α × Session U) :
    (∃ fault, (operation faults failed act).run s = (.error fault.kind, failed fault s.tick))
      ∨ (operation faults failed act).run s = act s.tick := by
  cases hfault : faults s.ops with
  | some fault => exact Or.inl ⟨fault, by simp only [operation, StateT.run, hfault]⟩
  | none => exact Or.inr (by simp only [operation, StateT.run, hfault])

/-- One that changes nothing counts. -/
theorem operation_tick {α : Type} {act : Session U → Except ErrorKind α × Session U}
    (hact : ∀ s, (act s).2 = s) : ((operation faults (fun _ s => s) act).run s).2 = s.tick := by
  rcases run_operation faults s (fun _ s => s) act with ⟨fault, h⟩ | h
  · rw [h]
  · rw [h, hact]

theorem readFileText_tick : ((readFileText faults path).run s).2 = s.tick :=
  operation_tick faults s fun _ => rfl

theorem getMetadata_tick : ((getMetadata faults path).run s).2 = s.tick :=
  operation_tick faults s fun _ => rfl

theorem createDirectory_tick : ((createDirectory faults path).run s).2 = s.tick :=
  operation_tick faults s fun _ => rfl

theorem silent_noteExistingPathDeltaSupport :
    Silent s ((noteExistingPathDeltaSupport faults path).run s).2 := by
  have hmeta := getMetadata_tick faults path s
  unfold noteExistingPathDeltaSupport
  rw [StateT.run_bind]
  generalize (getMetadata faults path).run s = r at hmeta
  obtain ⟨r, t⟩ := r
  subst hmeta
  cases r with
  | ok m =>
    show Silent s ((if m.isFile && !m.isSymlink then pure () else modify Session.inexact :
      Io U Unit).run s.tick).2
    split
    · exact silent_tick s
    · exact (silent_tick s).trans (silent_inexact s.tick)
  | error e =>
    cases e with
    | notFound => exact silent_tick s
    | invalidInput | other => exact (silent_tick s).trans (silent_inexact s.tick)

theorem silent_readOptionalFileTextForDelta :
    Silent s ((readOptionalFileTextForDelta faults path).run s).2 := by
  have hnote := silent_noteExistingPathDeltaSupport faults path s
  unfold readOptionalFileTextForDelta
  rw [StateT.run_bind]
  generalize (noteExistingPathDeltaSupport faults path).run s = r at hnote
  obtain ⟨_, t⟩ := r
  have hread := readFileText_tick faults path t
  have htick : Silent s t.tick := hnote.trans (silent_tick t)
  show Silent s ((readFileText faults path >>= _).run t).2
  rw [StateT.run_bind]
  generalize (readFileText faults path).run t = r at hread
  obtain ⟨r, u⟩ := r
  subst hread
  cases r with
  | ok content => exact htick
  | error e =>
    cases e with
    | notFound => exact htick
    | invalidInput | other => exact htick.trans (silent_inexact t.tick)

theorem ensureNotDirectory_tick :
    ((ensureNotDirectory faults path).run s).2 = s.tick := by
  have hmeta := getMetadata_tick faults path s
  unfold ensureNotDirectory
  rw [StateT.run_bind]
  generalize (getMetadata faults path).run s = r at hmeta
  obtain ⟨r, t⟩ := r
  cases r with
  | ok m => exact hmeta
  | error e => exact hmeta

end

theorem silent_removeFailureWasSideEffectFree (expected : Option Text) (s : Session U) :
    Silent s ((removeFailureWasSideEffectFree faults path expected).run s).2 := by
  cases expected with
  | none => exact Silent.refl s
  | some text =>
    have hread := readFileText_tick faults path s
    unfold removeFailureWasSideEffectFree
    rw [StateT.run_bind]
    generalize (readFileText faults path).run s = r at hread
    obtain ⟨r, t⟩ := r
    subst hread
    cases r with
    | ok content => exact silent_tick s
    | error e => exact silent_tick s

end Silent

/-! ## Operations that change one file -/

section Change

variable (faults : Faults) (path : U)

/-- `t` is `s` with the file at `path` set, and the delta as it was. -/
structure Sets (path : U) (text : Option Text) (s t : Session U) : Prop where
  files : t.files = Function.update s.files path text
  delta : t.delta = s.delta

theorem Sets.trans {text text' : Option Text} {s t u : Session U} (hst : Sets path text s t)
    (htu : Sets path text' t u) : Sets path text' s u := by
  constructor
  · rw [htu.files, hst.files, Function.update_idem]
  · rw [htu.delta, hst.delta]

theorem Sets.refl (s : Session U) : Sets path (s.files path) s s :=
  ⟨(Function.update_eq_self path s.files).symm, rfl⟩

theorem Sets.tick (s : Session U) : Sets path (s.files path) s s.tick :=
  ⟨(Function.update_eq_self path s.files).symm, rfl⟩

/-- A write sets its file; one that fails sets it to anything. -/
theorem writeFile_sets (contents : Text) (s : Session U) :
    ∃ text, Sets path text s ((writeFile faults path contents).run s).2 ∧
      (((writeFile faults path contents).run s).1 = .ok () → text = some contents) := by
  unfold writeFile
  rcases run_operation faults s _ _ with ⟨⟨kind, left⟩, hrun⟩ | hrun
  · rw [hrun]
    cases left with
    | none => exact ⟨s.files path, Sets.tick path s, fun h => by cases h⟩
    | some text => exact ⟨some text, ⟨rfl, rfl⟩, fun h => by cases h⟩
  · rw [hrun]
    exact ⟨some contents, ⟨rfl, rfl⟩, fun _ => rfl⟩

/-- A removal takes its file away or, failing, changes nothing. -/
theorem remove_spec (s : Session U) :
    (((remove faults path).run s).1 = .ok () ∧ Sets path none s ((remove faults path).run s).2) ∨
      ((∃ e, ((remove faults path).run s).1 = .error e) ∧
        ((remove faults path).run s).2 = s.tick) := by
  unfold remove
  rcases run_operation faults s _ _ with ⟨fault, hrun⟩ | hrun
  · rw [hrun]
    exact Or.inr ⟨⟨_, rfl⟩, rfl⟩
  · rw [hrun]
    cases hfile : s.tick.files path with
    | none => exact Or.inr ⟨⟨_, rfl⟩, rfl⟩
    | some text => exact Or.inl ⟨rfl, rfl, rfl⟩

end Change

/-! ## The helpers, whatever fails -/

section Helpers

variable (faults : Faults) (host : Host U E) (path : U)

omit [DecidableEq U] in
theorem ends_withContext {α : Type} {context : String} {op : Io U (Except ErrorKind α)}
    {s : Session U} {R : Except (ApplyError E) α → Session U → Prop}
    (hok : ∀ a, (op.run s).1 = .ok a → R (.ok a) (op.run s).2)
    (herror : ∀ e, (op.run s).1 = .error e → R (.error (.io context e)) (op.run s).2) :
    Ends (withContext context op) s R := by
  apply Ends.bind_lift
  generalize op.run s = r at hok herror
  obtain ⟨e | a, t⟩ := r
  · exact herror e rfl
  · exact hok a rfl

/-- A write after writes to the same path. -/
theorem ends_writeFile (context : String) (contents : Text) {text : Option Text}
    {s u : Session U} (hu : Sets path text s u) :
    Ends (withContext context (writeFile faults path contents) : Apply U E Unit) u fun r t =>
      ∃ text, Sets path text s t ∧ (r = .ok () → text = some contents) := by
  obtain ⟨text', hset, hok⟩ := writeFile_sets faults path contents u
  apply ends_withContext
  · intro a ha
    exact ⟨text', Sets.trans path hu hset, fun _ => hok ha⟩
  · intro e he
    exact ⟨text', Sets.trans path hu hset, fun h => by cases h⟩

/-- With the retry too, a write sets its file, to its contents when it succeeds. -/
theorem ends_writeFileWithMissingParentRetry (contents : Text) (s : Session U) :
    Ends (writeFileWithMissingParentRetry faults host path contents) s fun r t =>
      ∃ text, Sets path text s t ∧ (r = .ok () → text = some contents) := by
  obtain ⟨text, hset, hok⟩ := writeFile_sets faults path contents s
  apply Ends.bind_lift
  generalize (writeFile faults path contents).run s = r at hset hok
  obtain ⟨e | a, t⟩ := r
  · cases e with
    | notFound =>
      cases hparent : host.parent path with
      | none =>
        exact ends_writeFile faults path _ contents hset
      | some parent =>
        have htick : Sets path (t.files path) s t.tick :=
          Sets.trans path hset (Sets.tick path t)
        have hcreate := createDirectory_tick faults parent t
        apply Ends.bind (Q := fun _ u => u = t.tick)
        · grind [ends_withContext]
        · intro a u hu
          rw [hu]
          exact ends_writeFile faults path _ contents htick
        · grind
    | invalidInput => exact ⟨text, hset, fun h => by cases h⟩
    | other => exact ⟨text, hset, fun h => by cases h⟩
  · exact ⟨text, hset, fun _ => hok rfl⟩

/-- A write that fails costs the delta its exactness. -/
theorem ends_tryWrite {write : Apply U E Unit} {contents : Text} {s : Session U}
    (hwrite : Ends write s fun r t =>
      ∃ text, Sets path text s t ∧ (r = .ok () → text = some contents)) :
    Ends (tryWrite write) s fun r t =>
      (r = .ok () ∧ Sets path (some contents) s t) ∨
        ((∃ e, r = .error e) ∧ t.delta.exact = false) := by
  apply Ends.tryCatch hwrite
  · grind
  · intro e t _
    exact Or.inr ⟨⟨e, rfl⟩, rfl⟩

theorem ends_removeOrFail (context : String) (expected : Option Text) (s : Session U) :
    Ends (removeOrFail faults path context expected : Apply U E Unit) s fun r t =>
      (r = .ok () ∧ Sets path none s t) ∨ ((∃ e, r = .error e) ∧ Silent s t) := by
  apply Ends.bind_lift
  rcases remove_spec faults path s with ⟨hok, hset⟩ | ⟨⟨e, herr⟩, htick⟩
  · rw [hok]
    exact Or.inl ⟨rfl, hset⟩
  · rw [herr, htick]
    have hback := (silent_tick s).trans
      (silent_removeFailureWasSideEffectFree faults path expected s.tick)
    apply Ends.bind_lift
    generalize (removeFailureWasSideEffectFree faults path expected).run s.tick = r at hback
    obtain ⟨free, t⟩ := r
    cases free with
    | true => exact Or.inr ⟨⟨_, rfl⟩, hback⟩
    | false => exact Or.inr ⟨⟨_, rfl⟩, hback.trans (silent_inexact t)⟩

/-- The removal of a file that must not be a directory, and what follows it. -/
theorem ends_checkedRemoval {context : String} {expected : Option Text}
    {rest : Unit → Apply U E Unit} {s : Session U}
    {R : Except (ApplyError E) Unit → Session U → Prop}
    (hstop : ∀ e t, Silent s t → R (.error e) t)
    (hrest : ∀ t, Sets path none s t → Ends (rest ()) t R) :
    Ends (withContext context (ensureNotDirectory faults path) >>= fun _ =>
      removeOrFail faults path context expected >>= rest) s R := by
  have hensure := ensureNotDirectory_tick faults path s
  apply Ends.bind (Q := fun _ t => t = s.tick)
  · grind [ends_withContext]
  · intro a t ht
    subst ht
    apply Ends.bind (ends_removeOrFail faults path context expected s.tick)
    · rintro a t (⟨-, hset⟩ | ⟨⟨e, he⟩, -⟩)
      · exact hrest t (Sets.trans path (Sets.tick path s) hset)
      · cases he
    · rintro e t (⟨he, -⟩ | ⟨-, hsilent⟩)
      · cases he
      · exact hstop e t ((silent_tick s).trans hsilent)
  · intro e t ht
    subst ht
    exact hstop e _ (silent_tick s)

end Helpers

/-! ## The hunks, whatever fails -/

section Hunks

variable {faults : Faults} {host : Host U E} {mode : ApplyPatchFileUpdateMode} {cwd path : U}
  {start : U → Option Text} {s : Session U}

theorem inStep_of_inexact (h : s.delta.exact = false) : InStep start s := by
  intro hexact
  rw [h] at hexact
  cases hexact

section

variable (h : InStep start s)

include h

/-- Setting a file and recording it with a change that says so. -/
theorem InStep.push {text : Option Text} {t : Session U} {change : AppliedPatchFileChange U}
    (hset : Sets path text s t)
    (hchange : ∀ files, (⟨path, change⟩ : AppliedPatchChange U).replay files =
      Function.update files path text) :
    InStep start (t.push ⟨path, change⟩) := by
  intro hexact
  have hexact' : s.delta.exact = true := by
    rw [← hset.delta]
    exact hexact
  show replay (t.delta.changes ++ [⟨path, change⟩]) start = t.files
  rw [replay_concat, hchange, hset.delta, h hexact', hset.files]

omit h in
/-- A move overwrites the entry that its write has made. -/
theorem move_changes {added change : AppliedPatchChange U} {t u : Session U}
    (hremoved : Sets path none (t.push added) u) :
    u.delta.changes.set t.delta.changes.length change = t.delta.changes ++ [change] := by
  rw [hremoved.delta]
  show (t.delta.changes ++ [added]).set t.delta.changes.length _ = _
  simp

/-- The write and the removal of a move, recorded in one change. -/
theorem InStep.move {dest : U} {new old : Text} {overwritten : Option Text}
    {added : AppliedPatchChange U} {t u : Session U} (hset : Sets dest (some new) s t)
    (hremoved : Sets path none (t.push added) u) (hne : path ≠ dest) :
    InStep start (u.overwrite t.delta.changes.length
      ⟨path, .update (some dest) old overwritten new⟩) := by
  intro hexact
  have hexact' : s.delta.exact = true := by
    rw [← hset.delta]
    have hu : u.delta.exact = true := hexact
    rw [hremoved.delta] at hu
    exact hu
  show replay (u.delta.changes.set t.delta.changes.length _) start = u.files
  have hfiles : (t.push added).files = t.files := rfl
  rw [move_changes hremoved, replay_concat, hset.delta, h hexact', hremoved.files, hfiles,
    hset.files]
  show Function.update (Function.update s.files path none) dest (some new) = _
  exact Function.update_comm hne _ _ _

theorem applyAdd_inStep (affectedPath : String) (contents : Text) :
    Ends (applyAdd faults host affectedPath path contents) s fun _ t => InStep start t := by
  have hread := silent_readOptionalFileTextForDelta faults path s
  apply Ends.bind_lift
  apply Ends.bind (ends_tryWrite path
    (ends_writeFileWithMissingParentRetry faults host path contents _))
  · rintro a t (⟨-, hset⟩ | ⟨⟨e, he⟩, -⟩)
    · exact (hread.inStep h).push hset fun _ => rfl
    · cases he
  · grind [InStep]

theorem applyInPlace_inStep (affectedPath : String) (applied : AppliedPatch) :
    Ends (applyInPlace faults host affectedPath path applied) s fun _ t => InStep start t := by
  apply Ends.bind (ends_tryWrite path (ends_writeFile faults path _ applied.newContents
    (Sets.refl path s)))
  · rintro a t (⟨-, hset⟩ | ⟨⟨e, he⟩, -⟩)
    · exact h.push hset fun _ => rfl
    · cases he
  · grind [InStep]

theorem applyDelete_inStep (affectedPath : String) :
    Ends (applyDelete faults host affectedPath path) s fun _ t => InStep start t := by
  have hnote := (silent_noteExistingPathDeltaSupport faults path s).inStep h
  apply Ends.bind_lift
  generalize ((noteExistingPathDeltaSupport faults path).run s).2 = t at hnote
  have hread := readFileText_tick faults path t
  apply Ends.bind_lift
  generalize (readFileText faults path).run t = r at hread
  obtain ⟨r, u⟩ := r
  subst hread
  have htick := (silent_tick t).inStep hnote
  cases r with
  | ok content =>
    apply ends_checkedRemoval
    · intro e u hsilent
      exact hsilent.inStep htick
    · intro u hset
      apply Ends.bind_modify
      exact htick.push hset fun _ => rfl
  | error e =>
    -- the text is not known, so the delta is exact no more, whatever comes
    apply Ends.bind_modify
    apply ends_checkedRemoval
    · intro e u hsilent
      exact hsilent.inStep (inStep_of_inexact rfl)
    · intro u hset
      apply inStep_of_inexact
      show u.delta.exact = false
      rw [hset.delta]
      rfl

theorem applyMove_inStep (dest : U) (affectedPath : String) (applied : AppliedPatch) :
    Ends (applyMove faults host affectedPath path dest applied) s fun r t =>
      (r = .ok () → path ≠ dest) → InStep start t := by
  have hread := silent_readOptionalFileTextForDelta faults dest s
  apply Ends.bind_lift
  apply Ends.bind (ends_tryWrite dest
    (ends_writeFileWithMissingParentRetry faults host dest applied.newContents _))
  · rintro a t (⟨-, hset⟩ | ⟨⟨e, he⟩, -⟩)
    · have hadded : InStep start (t.push ⟨dest, .add applied.newContents
          ((readOptionalFileTextForDelta faults dest).run s).1⟩) :=
        (hread.inStep h).push hset fun _ => rfl
      apply Ends.bind_get
      apply Ends.bind_modify
      apply ends_checkedRemoval
      · intro e u hsilent _
        exact hsilent.inStep hadded
      · intro u hremoved hne
        exact (hread.inStep h).move hset hremoved (hne rfl)
    · cases he
  · grind [InStep]

theorem applyUpdate_inStep (movePath : Option String) (chunks : List UpdateFileChunk)
    (affectedPath : String) :
    Ends (applyUpdate faults host mode cwd affectedPath path movePath chunks) s fun r t =>
      (r = .ok () → ∀ target, movePath = some target → host.join cwd target ≠ .ok path) →
        InStep start t := by
  have hnote := (silent_noteExistingPathDeltaSupport faults path s).inStep h
  apply Ends.bind_lift
  generalize ((noteExistingPathDeltaSupport faults path).run s).2 = t at hnote
  have hread := readFileText_tick faults path t
  apply Ends.bind_lift
  generalize (readFileText faults path).run t = r at hread
  obtain ⟨r, u⟩ := r
  subst hread
  have htick := (silent_tick t).inStep hnote
  cases deriveNewContentsFromChunks host path chunks mode r with
  | error e => exact fun _ => htick
  | ok applied =>
    cases movePath with
    | none => exact fun _ => applyInPlace_inStep htick affectedPath applied
    | some target =>
      cases hjoin : host.join cwd target with
      | error e =>
        simp only [hjoin]
        exact fun _ => htick
      | ok dest =>
        simp only [hjoin]
        intro hself
        refine applyMove_inStep htick dest affectedPath applied fun hok => ?_
        rintro rfl
        exact hself hok target rfl hjoin

/-- The hunk moves a file onto its own path. -/
def SelfMove (host : Host U E) (cwd : U) (hunk : Hunk) : Prop :=
  ∃ source dest chunks path, hunk = .updateFile source (some dest) chunks ∧
    host.join cwd source = .ok path ∧ host.join cwd dest = .ok path

theorem applyHunk_inStep (hunk : Hunk) :
    Ends (applyHunk faults host mode cwd hunk) s fun r t =>
      (r = .ok () → ¬ SelfMove host cwd hunk) → InStep start t := by
  unfold applyHunk
  cases hpath : hunk.resolvePath host cwd with
  | error e => exact fun _ => h
  | ok path =>
    cases hunk with
    | addFile source contents => exact fun _ => applyAdd_inStep h _ contents
    | deleteFile source => exact fun _ => applyDelete_inStep h _
    | updateFile source movePath chunks =>
      intro hself
      refine applyUpdate_inStep h movePath chunks _ fun hok target htarget hjoin => ?_
      subst htarget
      exact hself hok ⟨source, target, chunks, path, rfl, hpath, hjoin⟩

end

/-- The hunks are carried out up to one that moves a file onto its own path, that one too, and
the delta is exact then. -/
def MovesOnto (faults : Faults) (host : Host U E) (mode : ApplyPatchFileUpdateMode) (cwd : U)
    (hunks : List Hunk) (s : Session U) : Prop :=
  ∃ pre hunk t, pre ++ [hunk] <+: hunks ∧ SelfMove host cwd hunk ∧
    outcome (applyEach faults host mode cwd (pre ++ [hunk])) s = (.ok (), t) ∧
    t.delta.exact = true

theorem applyEach_inStep (hunks : List Hunk) (h : InStep start s)
    (hself : ¬ MovesOnto faults host mode cwd hunks s) :
    InStep start (outcome (applyEach faults host mode cwd hunks) s).2 := by
  induction hunks generalizing s with
  | nil => exact h
  | cons hunk hunks ih =>
    have hhunk : Ends (applyHunk faults host mode cwd hunk) s _ := applyHunk_inStep h hunk
    unfold Ends at hhunk
    show InStep start
      (outcome (applyHunk faults host mode cwd hunk >>= fun _ => applyEach _ _ _ _ hunks) s).2
    rcases hr : outcome (applyHunk faults host mode cwd hunk) s with ⟨e | _, t⟩
    · rw [hr] at hhunk
      rw [outcome_bind, hr]
      exact hhunk fun hok => by cases hok
    · rw [hr] at hhunk
      have ht : InStep start t := by
        cases hexact : t.delta.exact with
        | true =>
          refine hhunk fun _ hmove => hself ⟨[], hunk, t, ?_, hmove, ?_, hexact⟩
          · exact List.cons_prefix_cons.mpr ⟨rfl, List.nil_prefix⟩
          · exact outcome_bind_of_ok hr
        | false => exact inStep_of_inexact hexact
      rw [outcome_bind_of_ok hr]
      refine ih ht ?_
      rintro ⟨pre, hunk', u, hpre, hmove, hrun, hexact⟩
      exact hself ⟨hunk :: pre, hunk', u, List.cons_prefix_cons.mpr ⟨rfl, hpre⟩, hmove,
        (outcome_bind_of_ok hr).trans hrun, hexact⟩

end Hunks

/-! ## Moves onto their own path -/

section Gone

variable (faults : Faults) (host : Host U E) (mode : ApplyPatchFileUpdateMode)

/-- A file is gone that the delta puts there, wherever it is replayed. -/
def Gone (t : Session U) : Prop :=
  ∃ path, t.files path = none ∧ ∀ start, replay t.delta.changes start path ≠ none

theorem Gone.not_inStep {t : Session U} (h : Gone t) (hexact : t.delta.exact = true)
    (start : U → Option Text) : ¬ InStep start t := by
  intro hstep
  obtain ⟨path, hfile, hreplay⟩ := h
  exact hreplay start ((congrFun (hstep hexact) path).trans hfile)

/-- A move onto its own path that is carried out takes the file away, and its entry puts it
there. -/
theorem applyMove_gone (affectedPath : String) (path : U) (applied : AppliedPatch)
    (s : Session U) :
    Ends (applyMove faults host affectedPath path path applied) s fun r t =>
      r = .ok () → Gone t := by
  apply Ends.bind_lift
  apply Ends.bind (ends_tryWrite path
    (ends_writeFileWithMissingParentRetry faults host path applied.newContents _))
  · intro a t _
    apply Ends.bind_get
    apply Ends.bind_modify
    apply ends_checkedRemoval
    · intro e u _ hok
      cases hok
    · intro u hremoved _
      refine ⟨path, ?_, fun start => ?_⟩
      · show u.files path = none
        rw [hremoved.files, Function.update_self]
      · show replay (u.delta.changes.set t.delta.changes.length _) start path ≠ none
        rw [move_changes hremoved, replay_concat]
        show Function.update (_ : U → Option Text) path (some applied.newContents) path ≠ none
        rw [Function.update_self]
        exact Option.some_ne_none _
  · intro e t _ hok
    cases hok

theorem applyHunk_gone {cwd : U} {hunk : Hunk} (hself : SelfMove host cwd hunk) (s : Session U) :
    Ends (applyHunk faults host mode cwd hunk) s fun r t => r = .ok () → Gone t := by
  obtain ⟨source, dest, chunks, path, rfl, hpath, hdest⟩ := hself
  have hresolve : (Hunk.updateFile source (some dest) chunks).resolvePath host cwd = .ok path :=
    hpath
  unfold applyHunk
  rw [hresolve]
  apply Ends.bind_lift
  apply Ends.bind_lift
  split
  · exact fun hok => by cases hok
  · simp only [hdest]
    exact applyMove_gone faults host _ path _ _

theorem applyEach_gone {cwd : U} {hunk : Hunk} (hself : SelfMove host cwd hunk)
    (pre : List Hunk) (s : Session U) :
    Ends (applyEach faults host mode cwd (pre ++ [hunk])) s fun r t => r = .ok () → Gone t := by
  induction pre generalizing s with
  | nil =>
    apply Ends.bind (applyHunk_gone faults host mode hself s)
    · exact fun _ t ht _ => ht rfl
    · exact fun e t _ hok => by cases hok
  | cons first pre ih =>
    apply Ends.bind (Q := fun _ _ => True) trivial
    · exact fun _ t _ => ih t
    · exact fun e t _ hok => by cases hok

end Gone

theorem applyHunksToFiles_state (faults : Faults) (host : Host U E)
    (mode : ApplyPatchFileUpdateMode) (cwd : U) (hunks : List Hunk) (s : Session U) :
    (outcome (applyHunksToFiles faults host mode cwd hunks) s).2
      = (outcome (applyEach faults host mode cwd hunks) s).2 := by
  cases hunks with
  | nil => rfl
  | cons hunk hunks =>
    show (outcome (applyEach faults host mode cwd (hunk :: hunks) >>= _) s).2 = _
    rw [outcome_bind]
    split
    · next h => rw [h]; rfl
    · next h => rw [h]

/-- **Exact deltas replay.** From any files and whatever operations fail: unless a hunk is carried
out that moves a file onto its own path while the delta is exact, the hunks end with a delta that,
when it is exact, replays on the files of the start to the files at the end. If one is, this
fails for the hunks up to it. -/
theorem exact_delta_replays (faults : Faults) (host : Host U E) (mode : ApplyPatchFileUpdateMode)
    (cwd : U) (hunks : List Hunk) (files : U → Option Text) :
    (¬ MovesOnto faults host mode cwd hunks (Session.start files) → InStep files
        (outcome (applyHunksToFiles faults host mode cwd hunks) (Session.start files)).2) ∧
      (MovesOnto faults host mode cwd hunks (Session.start files) →
        ∃ part, part <+: hunks ∧ ¬ InStep files
          (outcome (applyHunksToFiles faults host mode cwd part) (Session.start files)).2) := by
  constructor
  · intro hself
    rw [applyHunksToFiles_state]
    exact applyEach_inStep hunks (fun _ => rfl) hself
  · rintro ⟨pre, hunk, t, hpre, hmove, hrun, hexact⟩
    refine ⟨pre ++ [hunk], hpre, ?_⟩
    have hgone := applyEach_gone faults host mode hmove pre (Session.start files)
    unfold Ends at hgone
    rw [hrun] at hgone
    rw [applyHunksToFiles_state, hrun]
    exact (hgone rfl).not_inStep hexact files

/-- A move onto its own path ends well with an exact delta, which puts back what is gone. -/
theorem self_move_delta_replays_file :
    ∃ s, (outcome (applyHunksToFiles noFaults flatHost .normalizeToLf 0
          [.updateFile "a" (some "a") [⟨none, ["two".toList], ["three".toList], [], false⟩]])
        (Session.start twoFiles)).2 = s ∧
      s.delta.exact = true ∧ s.files 1 = none ∧
      replay s.delta.changes twoFiles 1 = some "one\nthree\n".toList := by
  refine ⟨_, rfl, ?_, ?_, ?_⟩ <;> decide +kernel

end CodexRouter.Patch
