import CodexRouter.Lib.Fallible
import CodexRouter.Permissions.ProfileIntersection

set_option autoImplicit false

/-! # The intersection of two effective profiles grants no more than either

Between two visited paths nothing new is granted: an entry of the result that grants something
was made for a path at which both sides grant it, a restriction of a side has an entry of its own
in the result, and a metadata directory that a side protects is visited.
-/

namespace CodexRouter.Permissions

open AbsolutePathBuf Lib

/-! ## Effective access of concrete policies -/

section

variable {host : Host} {policy : LocalPolicy} {denies : Option ReadDenyMatcher}
  {path cwd : AbsolutePathBuf}

theorem resolvedEntries_local (hcwd : isOpaque cwd = false) (h : IsConcrete policy.entries) :
    policy.resolvedEntries (localContext host.env cwd) = concreteEntries policy.entries :=
  resolvedEntries_concrete hcwd h

/-- The deepest entry of a concrete policy decides. -/
theorem resolveAccess_iff_deepest {mode : FileSystemAccessMode}
    (hkind : policy.kind = .restricted) (h : IsConcrete policy.entries)
    (hcwd : isOpaque cwd = false) (hpath : isOpaque path = false) (hmode : mode ≠ .deny) :
    policy.resolveAccess path (localContext host.env cwd) = mode
      ↔ ∃ decider, Deepest (concreteEntries policy.entries) path decider mode := by
  rw [← @resolvedEntries_local host policy cwd hcwd h]
  exact resolveAccess_eq_iff_deepest hkind hcwd hpath hmode

theorem effectiveAccess_eq_write_iff :
    effectiveAccess host policy denies path cwd = .write
      ↔ denies.any (·.isLocalPathReadDenied path) = false
        ∧ policy.canWriteAbsolutePath host.env path cwd = true := by
  unfold effectiveAccess
  split <;> rename_i hdenied
  · simp [hdenied]
  · grind

/-- What can be written is granted. -/
theorem resolveAccess_of_canWrite
    (h : policy.canWriteAbsolutePath host.env path cwd = true) :
    policy.resolveAccess path (localContext host.env cwd) = .write := by
  grind [FileSystemSandboxPolicy.canWriteAbsolutePath, FileSystemSandboxPolicy.canWritePath,
    FileSystemAccessMode.canWrite]

theorem effectiveAccess_ne_deny_iff :
    effectiveAccess host policy denies path cwd ≠ .deny
      ↔ denies.any (·.isLocalPathReadDenied path) = false
        ∧ policy.resolveAccess path (localContext host.env cwd) ≠ .deny := by
  unfold effectiveAccess
  split <;> rename_i hdenied
  · simp [hdenied]
  · grind [resolveAccess_of_canWrite, FileSystemSandboxPolicy.canReadLocalPathWithCwd,
      FileSystemAccessMode.canRead]

variable (host cwd) in
/-- A concrete policy has a matcher without globs, if it denies anything. -/
theorem tryNewForLocalPaths_concrete (hpolicy : IsConcrete policy.entries) :
    ReadDenyMatcher.tryNewForLocalPaths host policy cwd
      = .ok (if policy.hasDeniedReadRestrictions = true
        then some ⟨cwd, deniedRoots policy (localContext host.env cwd), []⟩ else none) := by
  have hnone : policy.entries.filterMap ReadDenyMatcher.deniedPattern = [] := by
    refine List.filterMap_eq_nil_iff.mpr fun entry hentry => ?_
    have hconcrete := hpolicy entry hentry
    unfold ReadDenyMatcher.deniedPattern
    cases hentry' : entry.path with
    | globPattern pattern =>
      rw [hentry'] at hconcrete
      cases hconcrete
    | _ => rfl
  unfold ReadDenyMatcher.tryNewForLocalPaths ReadDenyMatcher.denyReadGlobs
  rw [hnone]
  cases policy.hasDeniedReadRestrictions <;> rfl

theorem readDenied_iff (hcwd : isOpaque cwd = false) (hpath : isOpaque path = false)
    (hkind : policy.kind = .restricted) (hpolicy : IsConcrete policy.entries)
    (h : ReadDenyMatcher.tryNewForLocalPaths host policy cwd = .ok denies) :
    denies.any (·.isLocalPathReadDenied path) = true
      ↔ Denied (concreteEntries policy.entries) path := by
  rw [tryNewForLocalPaths_concrete host cwd hpolicy] at h
  split at h
  · cases h
    show (isOpaque path || isOpaque cwd
      || (deniedRoots policy (localContext host.env cwd)).any (startsWith path)
      || false) = true ↔ _
    rw [hpath, hcwd, Bool.false_or, Bool.false_or, Bool.or_false,
      deniedRoots_any_iff (by exact hcwd) hpolicy hpath]
  · next hnone =>
    cases h
    simp only [FileSystemSandboxPolicy.hasDeniedReadRestrictions, hkind, decide_true,
      Bool.true_and, Bool.not_eq_true, List.any_eq_false, decide_eq_true_eq] at hnone
    constructor
    · nofun
    · rintro ⟨deny, hmem, _⟩
      obtain ⟨entry, hentry, _, haccess⟩ := mem_concreteEntries.mp hmem
      exact absurd haccess (hnone entry hentry)

end

/-- A policy that the metadata rule stops at a path lets write nowhere between the metadata
directory and the path. -/
theorem not_canWrite_of_closed {host : Host} {policy : LocalPolicy} {path cwd : AbsolutePathBuf}
    {found : AbsolutePathBuf × String} {middle : AbsolutePathBuf}
    (hkind : policy.kind = .restricted) (hdisk : policy.hasFullDiskWriteAccess = false)
    (hpath : isOpaque path = false)
    (hfound : firstProtected (policy.resolvedEntries (localContext host.env cwd)) path = some found)
    (hclosed : ¬ reopens (policy.resolvedEntries (localContext host.env cwd)) path found.1 = true)
    (hmiddle : found.1 <+: middle) (hbelow : middle <+: path) :
    ¬ policy.canWriteAbsolutePath host.env middle cwd = true := by
  intro hcan
  have hopen := isOpaque_of_isPrefix hbelow hpath
  have hdisk' : policy.hasFullDiskWriteAccessWithContext (localContext host.env cwd) = false :=
    hdisk
  obtain ⟨_, hdisk'' | hmetadata⟩ := (FileSystemSandboxPolicy.canWritePath_iff hkind).mp hcan
  · rw [hdisk'] at hdisk''
    cases hdisk''
  · grind [firstProtected_between, reopens_iff]

/-! ## What the loop leaves behind -/

/-- The entries when the loop reached a path at which it added nothing. -/
structure Stage (host : Host) (cwd : AbsolutePathBuf)
    (access : AbsolutePathBuf → FileSystemAccessMode) (result : LocalPolicy)
    (path : AbsolutePathBuf) (intersection : LocalPolicy) : Prop where
  kind : intersection.kind = .restricted
  entries : ∃ later, result.entries = intersection.entries ++ later
    ∧ ∀ entry ∈ later, path.length ≤ entry.path.concretePath.length
  current : ¬ Denied (concreteEntries result.entries) path →
    intersection.canWriteAbsolutePath host.env path cwd = true → access path = .write
  fullDisk : result.hasFullDiskWriteAccess = true → intersection.hasFullDiskWriteAccess = true

/-- What the loop leaves behind of one side, when `access` is the access that both sides give. -/
structure Narrows (host : Host) (cwd : AbsolutePathBuf)
    (access : AbsolutePathBuf → FileSystemAccessMode) (source result : LocalPolicy) : Prop where
  kind : result.kind = .restricted
  concrete : IsConcrete result.entries
  denies : ∀ deny, (deny, .deny) ∈ concreteEntries source.entries →
    (deny, .deny) ∈ concreteEntries result.entries
  granting : ∀ root mode, (root, mode) ∈ concreteEntries result.entries → mode ≠ .deny →
    mode = access root
  restricting : ∀ root mode, (root, mode) ∈ concreteEntries source.entries → mode ≠ .write →
    ∃ other, (root, other) ∈ concreteEntries result.entries
  metadata : ∀ root name, (root, .write) ∈ concreteEntries source.entries →
    source.hasFullDiskWriteAccess = false →
    source.resolveAccess root (localContext host.env cwd) = .write →
    name ∈ protectedMetadataPathNames → access (root ++ [name]) ≠ .write →
    (∃ other, (root ++ [name], other) ∈ concreteEntries result.entries)
      ∨ ∃ intersection, Stage host cwd access result (root ++ [name]) intersection

section

variable {host : Host} {cwd path above : AbsolutePathBuf}
  {access : AbsolutePathBuf → FileSystemAccessMode} {source result intersection : LocalPolicy}

theorem Stage.append (h : Stage host cwd access result above intersection) : ∃ later,
    concreteEntries result.entries = concreteEntries intersection.entries ++ later
      ∧ ∀ entry ∈ later, above.length ≤ entry.1.length := by
  obtain ⟨later, hentries, hlater⟩ := h.entries
  refine ⟨concreteEntries later, ?_, fun found hfound => ?_⟩
  · rw [hentries, concreteEntries, List.map_append]
    rfl
  · obtain ⟨entry, hentry, hroot, _⟩ := mem_concreteEntries.mp hfound
    exact hroot ▸ hlater entry hentry

/-- What lies above the path was there when the loop came to it. -/
theorem Stage.earlier (h : Stage host cwd access result above intersection)
    {entry : AbsolutePathBuf × FileSystemAccessMode} (hshort : entry.1.length < above.length)
    (hmem : entry ∈ concreteEntries result.entries) :
    entry ∈ concreteEntries intersection.entries := by
  obtain ⟨later, hresolved, hlater⟩ := h.append
  rw [hresolved] at hmem
  rcases List.mem_append.mp hmem with hmem | hmem
  · exact hmem
  · exact absurd (hlater entry hmem) (Nat.not_le.mpr hshort)

namespace Narrows

variable (h : Narrows host cwd access source result)

include h

/-- Below the entry that decides for the result, this side has write entries only. -/
theorem write_of_below {decider root : AbsolutePathBuf} {mode mode' : FileSystemAccessMode}
    (hdecider : Deepest (concreteEntries result.entries) path decider mode)
    (hroot : (root, mode') ∈ concreteEntries source.entries) (hcovers : root <+: path)
    (hlt : decider.length < root.length) : mode' = .write := by
  by_contra hmode
  obtain ⟨other, hother⟩ := h.restricting root mode' hroot hmode
  have hle : root.length ≤ decider.length := hdecider.deepest _ hother hcovers
  omega

variable (hcwd : isOpaque cwd = false) (hpath : isOpaque path = false)

include hcwd hpath

/-- The state of the loop at a path below the entry that decides for the result lets write there
only if the result lets write at the end of the path. -/
theorem stage_canWrite {decider : AbsolutePathBuf}
    (hstage : Stage host cwd access result above intersection) (habove : above <+: path)
    (hdecider : Deepest (concreteEntries result.entries) path decider .write)
    (hlt : decider.length < above.length)
    (hcan : result.canWriteAbsolutePath host.env path cwd = true) :
    intersection.canWriteAbsolutePath host.env above cwd = true := by
  have hopen := isOpaque_of_isPrefix habove hpath
  obtain ⟨later, hresolved, _⟩ := hstage.append
  have hconcrete : IsConcrete intersection.entries := fun entry hentry => by
    obtain ⟨later, hentries, _⟩ := hstage.entries
    exact h.concrete entry (hentries ▸ List.mem_append_left _ hentry)
  have hsubset : ∀ entry ∈ concreteEntries intersection.entries,
      entry ∈ concreteEntries result.entries := fun entry hentry =>
    hresolved ▸ List.mem_append_left _ hentry
  have hdeepest : Deepest (concreteEntries intersection.entries) above decider .write :=
    { mem := hstage.earlier hlt hdecider.mem
      covers := List.prefix_of_prefix_length_le hdecider.covers habove hlt.le
      deepest := fun entry hentry hcovers =>
        hdecider.deepest entry (hsubset entry hentry) (hcovers.trans habove)
      strongest := fun other hother => hdecider.strongest other (hsubset _ hother) }
  obtain ⟨_, hmetadata⟩ := (FileSystemSandboxPolicy.canWritePath_iff h.kind).mp hcan
  refine (FileSystemSandboxPolicy.canWritePath_iff hstage.kind).mpr ⟨?_, ?_⟩
  · exact (resolveAccess_iff_deepest hstage.kind hconcrete hcwd hopen (by decide)).mpr
      ⟨decider, hdeepest⟩
  · rcases hmetadata with hdisk | hmetadata
    · exact Or.inl (hstage.fullDisk hdisk)
    · refine Or.inr fun found hfound => ?_
      rw [resolvedEntries_local hcwd hconcrete] at hfound ⊢
      rw [resolvedEntries_local hcwd h.concrete] at hmetadata
      have hbelow : firstProtected (concreteEntries intersection.entries) path = some found :=
        firstProtected_below hpath hfound habove fun root hroot hcovers =>
          lt_of_le_of_lt (hdecider.deepest _ (hsubset _ hroot) hcovers) hlt
      have hresult : firstProtected (concreteEntries result.entries) path = some found := by
        rw [hresolved, firstProtected, List.filter_append, List.findSome?_append]
        rw [firstProtected] at hbelow
        rw [hbelow]
        rfl
      obtain ⟨root, hroot, hfound', hcovers⟩ :=
        (reopens_iff hpath).mp (hmetadata found hresult)
      have hshort : root.length ≤ decider.length := hdecider.deepest _ hroot hcovers
      exact (reopens_iff hopen).mpr ⟨root, hstage.earlier (hshort.trans_lt hlt) hroot, hfound',
        List.prefix_of_prefix_length_le hcovers habove (by omega)⟩

variable (hkind : source.kind = .restricted) (hsource : IsConcrete source.entries)

include hkind hsource

/-- Both sides grant something at the entry that decides for the result, so this side grants
something at the path. -/
theorem resolveAccess_ne_deny
    (haccess : ∀ root, access root ≠ .deny →
      source.resolveAccess root (localContext host.env cwd) ≠ .deny)
    (hundenied : ¬ Denied (concreteEntries result.entries) path)
    (hresult : result.resolveAccess path (localContext host.env cwd) ≠ .deny) :
    source.resolveAccess path (localContext host.env cwd) ≠ .deny := by
  obtain ⟨root, hroot⟩ :=
    (resolveAccess_iff_deepest h.kind h.concrete hcwd hpath hresult).mp rfl
  have hgrants := haccess root (h.granting root _ hroot.mem hresult ▸ hresult)
  have hopen := isOpaque_of_isPrefix hroot.covers hpath
  obtain ⟨above, habove⟩ := (resolveAccess_iff_deepest hkind hsource hcwd hopen hgrants).mp rfl
  obtain ⟨decider, mode, hdecider⟩ :=
    Deepest.exists_of_covers habove.mem (habove.covers.trans hroot.covers)
  have hmode : mode ≠ .deny := by
    rintro rfl
    -- a `deny` of this side above the path is that of the root, which then decides at `root` too
    have hnil : decider = [] := by
      by_contra hne
      exact hundenied ⟨decider, h.denies decider hdecider.mem, hne, hdecider.covers⟩
    have hbetween := hdecider.between (hnil ▸ List.nil_prefix) hroot.covers
    exact hgrants (hbetween.unique habove).2
  rw [(resolveAccess_iff_deepest hkind hsource hcwd hpath hmode).mpr ⟨decider, hdecider⟩]
  exact hmode

/-- So this side lets write at the path what it lets write at that entry, the metadata rule
apart. -/
theorem resolveAccess_eq_write
    {decider middle : AbsolutePathBuf} {mode : FileSystemAccessMode}
    (hdecider : Deepest (concreteEntries result.entries) path decider mode)
    (hwrite : source.resolveAccess decider (localContext host.env cwd) = .write)
    (hmiddle : decider <+: middle) (hbelow : middle <+: path) :
    source.resolveAccess middle (localContext host.env cwd) = .write := by
  have hopen := isOpaque_of_isPrefix hdecider.covers hpath
  have hopen' := isOpaque_of_isPrefix hbelow hpath
  obtain ⟨above, habove⟩ :=
    (resolveAccess_iff_deepest hkind hsource hcwd hopen (by decide)).mp hwrite
  obtain ⟨root, mode', hroot⟩ := Deepest.exists_of_covers habove.mem (habove.covers.trans hmiddle)
  have hmode : mode' = .write := by
    by_cases hlt : decider.length < root.length
    · exact h.write_of_below hdecider hroot.mem (hroot.covers.trans hbelow) hlt
    · have hshort : root <+: decider :=
        List.prefix_of_prefix_length_le hroot.covers hmiddle (by omega)
      exact (habove.unique (hroot.between hshort hmiddle)).2
  exact (resolveAccess_iff_deepest hkind hsource hcwd hopen' (by decide)).mpr
    ⟨root, hmode ▸ hroot⟩

/-- **What the result lets write, this side lets write.** -/
theorem canWrite
    (haccess : ∀ root, access root = .write →
      source.canWriteAbsolutePath host.env root cwd = true)
    (hundenied : ¬ Denied (concreteEntries result.entries) path)
    (hcan : result.canWriteAbsolutePath host.env path cwd = true) :
    source.canWriteAbsolutePath host.env path cwd = true := by
  obtain ⟨decider, hdecider⟩ := (resolveAccess_iff_deepest h.kind h.concrete hcwd hpath
    (by decide)).mp (resolveAccess_of_canWrite hcan)
  have hwrite := haccess decider (h.granting decider _ hdecider.mem (by decide)).symm
  have hbetween : ∀ {middle : AbsolutePathBuf}, decider <+: middle → middle <+: path →
      source.resolveAccess middle (localContext host.env cwd) = .write :=
    h.resolveAccess_eq_write hcwd hpath hkind hsource hdecider (resolveAccess_of_canWrite hwrite)
  refine (FileSystemSandboxPolicy.canWritePath_iff hkind).mpr
    ⟨hbetween hdecider.covers (List.prefix_refl path), ?_⟩
  by_cases hdisk : source.hasFullDiskWriteAccess = true
  · exact Or.inl hdisk
  rw [Bool.not_eq_true] at hdisk
  refine Or.inr fun found hfound => ?_
  by_contra hclosed
  obtain ⟨root, hroot, hname, hjoin, hbelow⟩ := of_firstProtected_eq_some hpath hfound
  have hstops := fun {middle : AbsolutePathBuf} =>
    @not_canWrite_of_closed host source path cwd found middle hkind hdisk hpath hfound hclosed
  have hlength : found.1.length = root.length + 1 := by simp [hjoin]
  have hlt : decider.length < found.1.length := by
    grind [List.prefix_of_prefix_length_le, hdecider.covers]
  have hrootPath : root <+: path := (hjoin ▸ List.prefix_append root _).trans hbelow
  have hroot' : decider <+: root :=
    List.prefix_of_prefix_length_le hdecider.covers hrootPath (by omega)
  have hvisited :=
    h.metadata root found.2 (resolvedEntries_local hcwd hsource ▸ hroot) hdisk
      (hbetween hroot' hrootPath) hname
  rw [← hjoin] at hvisited
  have hnot : access found.1 ≠ .write := fun hopen =>
    hstops (List.prefix_refl _) hbelow (haccess _ hopen)
  -- the loop either made an entry there, below the one that decides, or saw it closed
  rcases hvisited hnot with ⟨other, hother⟩ | ⟨intersection, hstage⟩
  · have hle : found.1.length ≤ decider.length := hdecider.deepest _ hother hbelow
    omega
  · have hcurrent := h.stage_canWrite hcwd hpath hstage hbelow hdecider hlt hcan
    refine hnot (hstage.current (fun hdenied => hundenied ?_) hcurrent)
    obtain ⟨deny, hdeny, hroot, hcovers⟩ := hdenied
    exact ⟨deny, hdeny, hroot, hcovers.trans hbelow⟩

end Narrows

end

/-! ## The paths in order -/

instance : IsTrans AbsolutePathBuf VisitedBefore where
  trans a b c hab hbc := by
    rcases hab with hab | ⟨hab, hle⟩
    · rcases hbc with hbc | ⟨hbc, _⟩
      · exact Or.inl (by omega)
      · exact Or.inl (by omega)
    · rcases hbc with hbc | ⟨hbc, hle'⟩
      · exact Or.inl (by omega)
      · exact Or.inr ⟨by omega, le_trans hle hle'⟩

instance : Std.Total VisitedBefore where
  total a b := by
    rcases Nat.lt_trichotomy a.length b.length with h | h | h
    · exact Or.inl (Or.inl h)
    · rcases le_total a b with hle | hle
      · exact Or.inl (Or.inr ⟨h, hle⟩)
      · exact Or.inr (Or.inr ⟨h.symm, hle⟩)
    · exact Or.inr (Or.inl h)

/-- Shorter paths come first. -/
theorem pairwise_length_sorted (paths : List AbsolutePathBuf) :
    ((paths.insertionSort VisitedBefore).destutter (· ≠ ·)).Pairwise
      fun left right => left.length ≤ right.length := by
  have hsorted := List.pairwise_insertionSort VisitedBefore paths
  refine (hsorted.sublist (List.destutter_sublist _ _)).imp fun h => ?_
  rcases h with h | h <;> omega

/-- Removing a repetition removes no path. -/
theorem mem_destutter'_ne {path first : AbsolutePathBuf} {paths : List AbsolutePathBuf} :
    path ∈ paths.destutter' (· ≠ ·) first ↔ path ∈ first :: paths := by
  induction paths generalizing first with
  | nil => rfl
  | cons second rest ih =>
    by_cases hne : first ≠ second
    · rw [List.destutter'_cons_pos rest hne, List.mem_cons, ih, ← List.mem_cons]
    · grind [List.destutter'_cons_neg]

theorem mem_sorted {paths : List AbsolutePathBuf} {path : AbsolutePathBuf} :
    path ∈ (paths.insertionSort VisitedBefore).destutter (· ≠ ·) ↔ path ∈ paths := by
  have hsame : path ∈ paths.insertionSort VisitedBefore ↔ path ∈ paths :=
    List.mem_insertionSort VisitedBefore
  rw [← hsame]
  cases paths.insertionSort VisitedBefore with
  | nil => rfl
  | cons first rest => exact mem_destutter'_ne

/-! ## Full-disk access -/

/-- Two concrete paths that share a target are the same path. -/
theorem concretePath_eq_of_shareTarget {left right : FileSystemPath AbsolutePathBuf}
    (hleft : left.IsConcrete) (hright : right.IsConcrete)
    (h : fileSystemPathsShareTarget left right .posix = true) :
    left.concretePath = right.concretePath := by
  have htop : ∀ path : AbsolutePathBuf,
      specialPathMatchesPathUri .root path = true → path = [] := by
    intro path hpath
    have hpath : (if isOpaque path then none else some path.length).isSome = true
        ∧ (isOpaque path || path.isEmpty) = true := Bool.and_eq_true_iff.mp hpath
    cases hdrive : isOpaque path with
    | true => simp [hdrive] at hpath
    | false => simpa [hdrive] using hpath
  rcases hleft.cases with ⟨leftPath, rfl⟩ | rfl
  · rcases hright.cases with ⟨rightPath, rfl⟩ | rfl
    · exact of_decide_eq_true h
    · simp only [fileSystemPathsShareTarget, Bool.and_eq_true] at h
      exact htop leftPath h.2
  · rcases hright.cases with ⟨rightPath, rfl⟩ | rfl
    · simp only [fileSystemPathsShareTarget, Bool.and_eq_true] at h
      exact (htop rightPath h.2).symm
    · rfl

/-- If what grants something does so by its path, appending entries below the root gives no
full-disk access. -/
theorem hasFullDiskWriteAccess_of_append {result intersection : LocalPolicy}
    {later : LocalEntries} (access : AbsolutePathBuf → FileSystemAccessMode)
    (hkind : intersection.kind = .restricted) (hkind' : result.kind = .restricted)
    (hconcrete : IsConcrete result.entries)
    (hgranting : ∀ entry ∈ result.entries, entry.access ≠ .deny →
      entry.access = access entry.path.concretePath)
    (hentries : result.entries = intersection.entries ++ later)
    (hlater : ∀ entry ∈ later, entry.path.concretePath ≠ [])
    (hdisk : result.hasFullDiskWriteAccess = true) :
    intersection.hasFullDiskWriteAccess = true := by
  have hmem : ∀ entry ∈ intersection.entries, entry ∈ result.entries := fun entry hentry =>
    hentries ▸ List.mem_append_left _ hentry
  -- an entry that narrows the write access still does so in the result
  have hnarrows : ∀ entry ∈ intersection.entries,
      intersection.narrowsWrite .posix entry = true → result.narrowsWrite .posix entry = true := by
    intro entry hentry hnarrow
    have hnone : result.hasSameTargetWriteOverride entry .posix = false := by
      refine List.any_eq_false.mpr fun candidate hcandidate hover => ?_
      simp only [Bool.and_eq_true, FileSystemAccessMode.canWrite_iff, decide_eq_true_eq] at hover
      obtain ⟨⟨hwrite, hlt⟩, hshare⟩ := hover
      have hsame := concretePath_eq_of_shareTarget (hconcrete candidate hcandidate)
        (hconcrete entry (hmem entry hentry)) hshare
      have hnot : entry.access ≠ .deny := by
        intro hdeny
        rw [hdeny, hwrite] at hlt
        exact absurd hlt (by decide)
      have hentry' := hgranting entry (hmem entry hentry) hnot
      have hcandidate' := hgranting candidate hcandidate (by rw [hwrite]; decide)
      rw [hsame, ← hentry'] at hcandidate'
      exact absurd hlt (hcandidate' ▸ lt_irrefl _)
    unfold FileSystemSandboxPolicy.narrowsWrite at hnarrow ⊢
    have hpath := hconcrete entry (hmem entry hentry)
    split at hnarrow
    · cases hnarrow
    · next hwrite => grind
  have hroot : ∀ entry ∈ result.entries, entry.path = .special .root →
      entry ∈ intersection.entries := by
    intro entry hentry hpath
    rw [hentries] at hentry
    rcases List.mem_append.mp hentry with h | h
    · exact h
    · exact absurd (by rw [hpath]; rfl) (hlater entry h)
  simp only [FileSystemSandboxPolicy.hasFullDiskWriteAccess,
    FileSystemSandboxPolicy.hasFullDiskWriteAccessForConvention, hkind, hkind',
    FileSystemSandboxPolicy.hasRootAccess, FileSystemSandboxPolicy.hasWriteNarrowingEntries,
    decide_true, Bool.true_and, Bool.and_eq_true, Bool.not_eq_true', List.any_eq_true,
    List.any_eq_false, decide_eq_true_eq] at hdisk ⊢
  obtain ⟨⟨entry, hentry, hpath, hwrite⟩, hnone⟩ := hdisk
  exact ⟨⟨entry, hroot entry hentry hpath, hpath, hwrite⟩,
    fun other hother hnarrow => hnone other (hmem other hother) (hnarrows other hother hnarrow)⟩

/-! ## What a turn of the loop reads -/

section

variable {host : Host}

theorem entryPath_concrete {entry : FileSystemSandboxEntry AbsolutePathBuf}
    (h : entry.path.IsConcrete) : entryPath host entry = .ok (some entry.path.concretePath) := by
  obtain ⟨path, access, skips⟩ := entry
  rcases h.cases with ⟨_, rfl⟩ | rfl
  · rfl
  · rfl

theorem resultPath_concrete (sources : Sources) (path : AbsolutePathBuf) :
    (resultPath sources path).IsConcrete ∧ (resultPath sources path).concretePath = path := by
  unfold resultPath
  split
  · next h =>
    rw [Bool.and_eq_true, decide_eq_true_eq] at h
    exact ⟨trivial, h.1.symm⟩
  · exact ⟨trivial, rfl⟩

/-- No side has an entry for the path that restricts it. -/
def Unrestricted (host : Host) (sources : Sources) (path : AbsolutePathBuf) : Prop :=
  hasEntryAt host sources path (fun entry => entry.skipsMissingPath) = false
    ∧ hasEntryAt host sources path
      (fun entry => !entry.skipsMissingPath && !entry.access.canWrite) = false

theorem not_unrestricted {sources : Sources} {source : LocalPolicy × Option ReadDenyMatcher}
    (hsource : source ∈ sources) {entry : FileSystemSandboxEntry AbsolutePathBuf}
    (hentry : entry ∈ source.1.entries) (hconcrete : entry.path.IsConcrete)
    (haccess : entry.access ≠ .write) : ¬ Unrestricted host sources entry.path.concretePath := by
  have hat : ∀ condition : FileSystemSandboxEntry AbsolutePathBuf → Bool, condition entry = true →
      hasEntryAt host sources entry.path.concretePath condition = true := by
    intro condition hcondition
    refine List.any_eq_true.mpr ⟨source, hsource, List.any_eq_true.mpr ⟨entry, hentry, ?_⟩⟩
    rw [entryPath_concrete hconcrete, hcondition]
    exact decide_eq_true rfl
  rintro ⟨hno, hno'⟩
  cases hskips : entry.skipsMissingPath with
  | true =>
    rw [hat _ hskips] at hno
    cases hno
  | false =>
    rw [hat _ (by simpa [hskips, FileSystemAccessMode.canWrite] using haccess)] at hno'
    cases hno'

end

section

variable {left right : FileSystemAccessMode}

theorem intersectAccess_ne_deny (h : intersectAccess left right ≠ .deny) :
    left ≠ .deny ∧ right ≠ .deny := by
  cases left <;> cases right <;> simp_all [intersectAccess]

theorem intersectAccess_eq_write (h : intersectAccess left right = .write) :
    left = .write ∧ right = .write := by
  cases left <;> cases right <;> simp_all [intersectAccess]

/-- What grants nothing where a side grants nothing, and lets write only where both do, is at
most the intersection. -/
theorem breadth_le_intersectAccess {access : FileSystemAccessMode}
    (hdeny : access ≠ .deny → left ≠ .deny ∧ right ≠ .deny)
    (hwrite : access = .write → left = .write ∧ right = .write) :
    access.breadth ≤ (intersectAccess left right).breadth := by
  cases access with
  | deny => exact Nat.zero_le _
  | read =>
    cases left <;> cases right <;> simp_all [intersectAccess, FileSystemAccessMode.breadth]
  | write =>
    obtain ⟨rfl, rfl⟩ := hwrite rfl
    exact le_rfl

end

/-- The entries of a side and the metadata paths of its writable roots are visited. -/
theorem visitedPaths_spec {host : Host} {policy : LocalPolicy} {cwd : AbsolutePathBuf}
    {paths : List AbsolutePathBuf} (hpolicy : IsConcrete policy.entries)
    (h : visitedPaths host policy cwd = .ok paths) :
    (∀ entry ∈ policy.entries, entry.path.concretePath ∈ paths)
      ∧ ∀ writable ∈ policy.getWritableRootsWithCwd host.fs host.env cwd,
        ∀ name ∈ protectedMetadataPathNames, writable.root ++ [name] ∈ paths := by
  obtain ⟨entryPaths, hentries, h⟩ := bind_eq_ok_iff.mp h
  cases h
  constructor
  · intro entry hentry
    obtain ⟨visited, hmem, hvisited⟩ :=
      exists_mem_of_forall₂ (mapM_eq_ok_iff.mp hentries) hentry
    have hpath : visited = some entry.path.concretePath := by
      unfold visitedEntryPath at hvisited
      rw [entryPath_concrete (hpolicy entry hentry)] at hvisited
      obtain ⟨_, hsome, hvisited⟩ := bind_eq_ok_iff.mp hvisited
      cases hsome
      simp only at hvisited
      split at hvisited
      · cases hvisited
      · cases hvisited
        rfl
    refine List.mem_append_left _ (List.mem_append_left _ ?_)
    exact List.mem_filterMap.mpr ⟨visited, hmem, hpath⟩
  · intro writable hwritable name hname
    refine List.mem_append_right _ (List.mem_flatMap.mpr ⟨writable, hwritable, ?_⟩)
    exact List.mem_append_left _ (List.mem_cons_of_mem _ (List.mem_map_of_mem hname))

/-! ## The loop -/

/-- What the loop starts from: two concrete policies, their `deny` entries, and paths in order
that have the entries of both sides and the metadata paths of their writable roots among them. -/
structure LoopInput (host : Host) (authority requested : LocalPolicy × Option ReadDenyMatcher)
    (initial : LocalPolicy) (intersectionDenies : Option ReadDenyMatcher) (cwd : AbsolutePathBuf)
    (paths : List AbsolutePathBuf) : Prop where
  kind : initial.kind = .restricted
  kinds : ∀ source ∈ [authority, requested], source.1.kind = .restricted
  concrete : ∀ source ∈ [authority, requested], IsConcrete source.1.entries
  denies : ∀ entry, entry ∈ initial.entries
    ↔ (∃ source ∈ [authority, requested], entry ∈ source.1.entries) ∧ entry.access = .deny
  matcher : ReadDenyMatcher.tryNewForLocalPaths host initial cwd = .ok intersectionDenies
  entries : ∀ source ∈ [authority, requested], ∀ entry ∈ source.1.entries,
    entry.path.concretePath ∈ paths
  metadata : ∀ source ∈ [authority, requested],
    ∀ writable ∈ source.1.getWritableRootsWithCwd host.fs host.env cwd,
    ∀ name ∈ protectedMetadataPathNames, writable.root ++ [name] ∈ paths
  sorted : paths.Pairwise fun left right => left.length ≤ right.length

namespace LoopInput

variable {host : Host} {authority requested : LocalPolicy × Option ReadDenyMatcher}
  {initial : LocalPolicy} {intersectionDenies : Option ReadDenyMatcher} {cwd : AbsolutePathBuf}
  {paths : List AbsolutePathBuf}

/-- The access that both sides give. -/
abbrev access (_ : LoopInput host authority requested initial intersectionDenies cwd paths)
    (path : AbsolutePathBuf) : FileSystemAccessMode :=
  sourcesAccess host authority requested path cwd

abbrev turn (_ : LoopInput host authority requested initial intersectionDenies cwd paths) :
    LocalPolicy → AbsolutePathBuf → LocalPolicy :=
  visitPath host authority requested intersectionDenies cwd

abbrev result (_ : LoopInput host authority requested initial intersectionDenies cwd paths) :
    LocalPolicy :=
  paths.foldl (visitPath host authority requested intersectionDenies cwd) initial

variable (h : LoopInput host authority requested initial intersectionDenies cwd paths)

/-- A turn adds nothing, or one entry for its path with the access of both sides. -/
theorem turn_cases (intersection : LocalPolicy) (path : AbsolutePathBuf) :
    h.turn intersection path = intersection
      ∨ ∃ entry : FileSystemSandboxEntry AbsolutePathBuf,
        h.turn intersection path
            = { intersection with entries := intersection.entries ++ [entry] }
          ∧ entry.path.IsConcrete ∧ entry.path.concretePath = path
          ∧ entry.access = h.access path := by
  obtain ⟨hconcrete, hpath⟩ := resultPath_concrete [authority, requested] path
  unfold turn visitPath
  simp only
  split
  · exact Or.inl rfl
  · grind

/-- After a turn there is an entry for its path, unless the access was right already and no side
restricts the path. -/
theorem turn_adds (intersection : LocalPolicy) (path : AbsolutePathBuf) :
    (∃ entry ∈ (h.turn intersection path).entries, entry.path.concretePath = path)
      ∨ h.turn intersection path = intersection
        ∧ h.access path = effectiveAccess host intersection intersectionDenies path cwd
        ∧ Unrestricted host [authority, requested] path := by
  obtain ⟨hconcrete, hpath⟩ := resultPath_concrete [authority, requested] path
  unfold turn visitPath
  simp only
  split
  · next hsame =>
    simp only [Bool.and_eq_true, decide_eq_true_eq, Bool.not_eq_true'] at hsame
    exact Or.inr ⟨rfl, hsame.1.1, hsame.1.2, hsame.2⟩
  · split
    · next hmem => exact Or.inl ⟨_, hmem, hpath⟩
    · exact Or.inl ⟨_, List.mem_append_right _ (List.mem_singleton.mpr rfl), hpath⟩

/-- Some turns append entries for their paths, with the access of both sides. -/
theorem foldl_turn (visited : List AbsolutePathBuf) (intersection : LocalPolicy) :
    ∃ later, visited.foldl h.turn intersection
        = { intersection with entries := intersection.entries ++ later }
      ∧ ∀ entry ∈ later, entry.path.IsConcrete ∧ entry.path.concretePath ∈ visited
        ∧ entry.access = h.access entry.path.concretePath := by
  induction visited generalizing intersection with
  | nil => exact ⟨[], by simp, by simp⟩
  | cons first rest ih =>
    obtain ⟨later, heq, hlater⟩ := ih (h.turn intersection first)
    have hrest : ∀ entry ∈ later, entry.path.IsConcrete
        ∧ entry.path.concretePath ∈ first :: rest
        ∧ entry.access = h.access entry.path.concretePath := by
      grind
    rw [List.foldl_cons, heq]
    rcases h.turn_cases intersection first with hsame | ⟨entry, hadded, hconcrete, hpath, haccess⟩
    · rw [hsame]
      exact ⟨later, rfl, hrest⟩
    · grind

/-- The state that the loop has when it comes to a path, and what comes after. -/
theorem result_split {path : AbsolutePathBuf} (hpath : path ∈ paths) :
    ∃ earlier later,
      h.result.entries
        = (h.turn { initial with entries := initial.entries ++ earlier } path).entries ++ later
      ∧ ∀ entry ∈ later, path.length ≤ entry.path.concretePath.length := by
  have hsorted := h.sorted
  obtain ⟨before, after, rfl⟩ := List.append_of_mem hpath
  obtain ⟨earlier, hbefore, _⟩ := h.foldl_turn before initial
  obtain ⟨later, hlater, hentries⟩ := h.foldl_turn after
    (h.turn { initial with entries := initial.entries ++ earlier } path)
  refine ⟨earlier, later, ?_, fun entry hentry => ?_⟩
  · show ((before ++ path :: after).foldl h.turn initial).entries = _
    rw [List.foldl_append, hbefore, List.foldl_cons, hlater]
  · grind [List.pairwise_cons]

include h

theorem isConcrete_initial : IsConcrete initial.entries := by
  intro entry hentry
  obtain ⟨⟨source, hsource, hmem⟩, _⟩ := (h.denies entry).mp hentry
  exact h.concrete source hsource entry hmem

/-- The entries of the result are concrete, and those that grant something do so with the access
of both sides. -/
theorem result_entries : ∀ entry ∈ h.result.entries, entry.path.IsConcrete
    ∧ (entry.access ≠ .deny → entry.access = h.access entry.path.concretePath) := by
  intro entry hentry
  obtain ⟨later, heq, hlater⟩ := h.foldl_turn paths initial
  rw [result, heq] at hentry
  rcases List.mem_append.mp hentry with hentry | hentry
  · refine ⟨h.isConcrete_initial entry hentry, fun haccess => ?_⟩
    exact absurd ((h.denies entry).mp hentry).2 haccess
  · exact ⟨(hlater entry hentry).1, fun _ => (hlater entry hentry).2.2⟩

theorem isConcrete_result : IsConcrete h.result.entries := fun entry hentry =>
  (h.result_entries entry hentry).1

theorem result_kind : h.result.kind = .restricted := by
  obtain ⟨later, heq, _⟩ := h.foldl_turn paths initial
  rw [result, heq]
  exact h.kind

/-- The loop has an entry for a path in the end, or no side restricts the path and the access was
right when the loop came to it. -/
theorem entry_or_passed {path : AbsolutePathBuf} (hpath : path ∈ paths) :
    (∃ other, (path, other) ∈ concreteEntries h.result.entries)
      ∨ Unrestricted host [authority, requested] path
        ∧ ∃ earlier later, h.result.entries = initial.entries ++ earlier ++ later
          ∧ (∀ entry ∈ later, path.length ≤ entry.path.concretePath.length)
          ∧ h.access path
            = effectiveAccess host { initial with entries := initial.entries ++ earlier }
              intersectionDenies path cwd := by
  obtain ⟨earlier, later, hentries, hlater⟩ := h.result_split hpath
  rcases h.turn_adds { initial with entries := initial.entries ++ earlier } path
    with ⟨entry, hentry, hat⟩ | ⟨hsame, hcurrent, hnone⟩
  · refine Or.inl ⟨entry.access, mem_concreteEntries.mpr ⟨entry, ?_, hat, rfl⟩⟩
    rw [hentries]
    exact List.mem_append_left _ hentry
  · rw [hsame] at hentries
    exact Or.inr ⟨hnone, earlier, later, hentries, hlater, hcurrent⟩

/-- The state in which the loop passed a path by. -/
theorem stage_of_passed {path : AbsolutePathBuf} (hroot : path ≠ [])
    {earlier later : LocalEntries}
    (hentries : h.result.entries = initial.entries ++ earlier ++ later)
    (hlater : ∀ entry ∈ later, path.length ≤ entry.path.concretePath.length)
    (hcurrent : h.access path
      = effectiveAccess host { initial with entries := initial.entries ++ earlier }
        intersectionDenies path cwd) :
    Stage host cwd h.access h.result path
      { initial with entries := initial.entries ++ earlier } := by
  refine ⟨h.kind, ⟨later, hentries, hlater⟩, fun hundenied hcan => ?_, fun hdisk => ?_⟩
  · rw [hcurrent, effectiveAccess_eq_write_iff]
    refine ⟨?_, hcan⟩
    have hwrite := resolveAccess_of_canWrite hcan
    obtain ⟨hcwd, hopen⟩ := not_isOpaque_of_write (by exact h.kind) hwrite
    rw [← Bool.not_eq_true, readDenied_iff hcwd hopen h.kind h.isConcrete_initial h.matcher]
    rintro ⟨deny, hdeny, hne, hcovers⟩
    obtain ⟨entry, hentry, hat, haccess⟩ := mem_concreteEntries.mp hdeny
    refine hundenied ⟨deny, mem_concreteEntries.mpr ⟨entry, ?_, hat, haccess⟩, hne, hcovers⟩
    rw [hentries]
    exact List.mem_append_left _ (List.mem_append_left _ hentry)
  · refine hasFullDiskWriteAccess_of_append h.access h.kind h.result_kind h.isConcrete_result
      (fun entry hentry => (h.result_entries entry hentry).2) hentries (fun entry hentry hnil => ?_)
      hdisk
    have hle := hlater entry hentry
    rw [hnil] at hle
    exact hroot (List.length_eq_zero_iff.mp (Nat.le_zero.mp hle))

variable {source : LocalPolicy × Option ReadDenyMatcher}

/-- The loop narrows each of the two sides. -/
theorem narrows (hsource : source ∈ [authority, requested]) :
    Narrows host cwd h.access source.1 h.result := by
  refine ⟨h.result_kind, h.isConcrete_result, ?_, ?_, ?_, ?_⟩
  · intro deny hdeny
    obtain ⟨entry, hentry, hat, haccess⟩ := mem_concreteEntries.mp hdeny
    obtain ⟨later, heq, _⟩ := h.foldl_turn paths initial
    rw [result, heq]
    refine mem_concreteEntries.mpr ⟨entry, List.mem_append_left _ ?_, hat, haccess⟩
    exact (h.denies entry).mpr ⟨⟨source, hsource, hentry⟩, haccess⟩
  · intro root mode hmem hmode
    obtain ⟨entry, hentry, rfl, rfl⟩ := mem_concreteEntries.mp hmem
    exact (h.result_entries entry hentry).2 hmode
  · intro root mode hmem hmode
    obtain ⟨entry, hentry, rfl, rfl⟩ := mem_concreteEntries.mp hmem
    rcases h.entry_or_passed (h.entries source hsource entry hentry) with hadded | ⟨hnone, _⟩
    · exact hadded
    · exact absurd hnone
        (not_unrestricted hsource hentry (h.concrete source hsource entry hentry) hmode)
  · intro root name hmem hdisk hwrite hname _
    have hkind := h.kinds source hsource
    have hconcrete := h.concrete source hsource
    obtain ⟨hcwd, _⟩ := not_isOpaque_of_write hkind hwrite
    have hresolved : source.1.resolvedEntriesWithCwd host.fs host.env cwd
        = concreteEntries source.1.entries :=
      (resolvedEntriesWithCwd_eq host.fs host.env hconcrete hcwd).trans
        (resolvedEntries_local hcwd hconcrete)
    have hwritable : source.1.writableRoot host.fs host.env cwd root
        ∈ source.1.getWritableRootsWithCwd host.fs host.env cwd :=
      (mem_getWritableRootsWithCwd_iff hkind hconcrete hdisk).mpr
        ⟨root, ⟨hresolved ▸ hmem, hwrite⟩, rfl⟩
    rcases h.entry_or_passed (h.metadata source hsource _ hwritable name hname)
      with hadded | ⟨_, earlier, later, hentries, hlater, hcurrent⟩
    · exact Or.inl hadded
    · exact Or.inr ⟨_, h.stage_of_passed (by simp) hentries hlater hcurrent⟩

variable {denies : Option ReadDenyMatcher} {path : AbsolutePathBuf}
  (hdenies : ReadDenyMatcher.tryNewForLocalPaths host h.result cwd = .ok denies)

include hdenies

/-- What the result of the loop grants, each side grants. -/
theorem side_grants (hsource : source ∈ [authority, requested])
    (hmatcher : ReadDenyMatcher.tryNewForLocalPaths host source.1 cwd = .ok source.2)
    (hgrants : effectiveAccess host h.result denies path cwd ≠ .deny) :
    effectiveAccess host source.1 source.2 path cwd ≠ .deny
      ∧ (effectiveAccess host h.result denies path cwd = .write →
        effectiveAccess host source.1 source.2 path cwd = .write) := by
  obtain ⟨hundenied, hresolve⟩ := effectiveAccess_ne_deny_iff.mp hgrants
  obtain ⟨hcwd, hpath⟩ := not_isOpaque_of_grants h.result_kind hresolve
  rw [← Bool.not_eq_true, readDenied_iff hcwd hpath h.result_kind h.isConcrete_result hdenies]
    at hundenied
  have haccess : ∀ root, (h.access root ≠ .deny →
        effectiveAccess host source.1 source.2 root cwd ≠ .deny)
      ∧ (h.access root = .write → effectiveAccess host source.1 source.2 root cwd = .write) := by
    intro root
    rcases List.mem_pair.mp hsource with rfl | rfl
    · exact ⟨fun h => (intersectAccess_ne_deny h).1, fun h => (intersectAccess_eq_write h).1⟩
    · exact ⟨fun h => (intersectAccess_ne_deny h).2, fun h => (intersectAccess_eq_write h).2⟩
  have hnarrows := h.narrows hsource
  have hkind := h.kinds source hsource
  have hconcrete := h.concrete source hsource
  have hfree : source.2.any (·.isLocalPathReadDenied path) = false := by
    rw [← Bool.not_eq_true, readDenied_iff hcwd hpath hkind hconcrete hmatcher]
    rintro ⟨deny, hdeny, hne, hcovers⟩
    exact hundenied ⟨deny, hnarrows.denies deny hdeny, hne, hcovers⟩
  constructor
  · refine effectiveAccess_ne_deny_iff.mpr ⟨hfree, ?_⟩
    refine hnarrows.resolveAccess_ne_deny hcwd hpath hkind hconcrete (fun root hroot => ?_)
      hundenied hresolve
    exact (effectiveAccess_ne_deny_iff.mp ((haccess root).1 hroot)).2
  · intro hwrite
    obtain ⟨_, hcan⟩ := effectiveAccess_eq_write_iff.mp hwrite
    refine effectiveAccess_eq_write_iff.mpr ⟨hfree, ?_⟩
    refine hnarrows.canWrite hcwd hpath hkind hconcrete (fun root hroot => ?_) hundenied hcan
    exact (effectiveAccess_eq_write_iff.mp ((haccess root).2 hroot)).2

/-- **The result of the loop grants no more than both sides.** -/
theorem effectiveAccess_le
    (hmatchers : ∀ source ∈ [authority, requested],
      ReadDenyMatcher.tryNewForLocalPaths host source.1 cwd = .ok source.2) :
    (effectiveAccess host h.result denies path cwd).breadth ≤ (h.access path).breadth := by
  by_cases hgrants : effectiveAccess host h.result denies path cwd = .deny
  · rw [hgrants]
    exact Nat.zero_le _
  have hside := fun source hsource =>
    h.side_grants hdenies hsource (hmatchers source hsource) hgrants
  obtain ⟨hleft, hleft'⟩ := hside authority (by simp)
  obtain ⟨hright, hright'⟩ := hside requested (by simp)
  exact breadth_le_intersectAccess (fun _ => ⟨hleft, hright⟩)
    fun hwrite => ⟨hleft' hwrite, hright' hwrite⟩

end LoopInput

/-! ## Normalization without symbolic links -/

section

variable {host : Host}

theorem canonicalize_eq {fs : FileSystem} {path physical : AbsolutePathBuf}
    (h : fs.canonicalize path = .ok physical) : physical = path := by
  grind [FileSystem.canonicalize]

theorem physicalPath_eq {path physical : AbsolutePathBuf}
    (h : physicalPath host path = .ok physical) : physical = path := by
  unfold physicalPath at h
  split at h
  · next found hfound =>
    cases h
    obtain ⟨ancestor, hancestor, hfound⟩ := List.exists_of_findSome?_eq_some hfound
    obtain ⟨canonical, hcanonical, rfl⟩ := Option.map_eq_some_iff.mp hfound
    have habove : ancestor <+: path := by simpa [ancestors] using hancestor
    have hsame : canonical = ancestor := canonicalize_eq (toOption_eq_some_iff.mp hcanonical)
    rw [hsame]
    exact (List.prefix_iff_eq_append.mp habove).symm ▸ rfl
  · cases h

theorem normalizeEntry_eq {entry normalized : FileSystemSandboxEntry AbsolutePathBuf}
    (hconcrete : entry.path.IsConcrete) (h : normalizeEntry host entry = .ok normalized) :
    normalized = entry := by
  obtain ⟨path, access, skips⟩ := entry
  rcases hconcrete.cases with ⟨path, rfl⟩ | rfl
  · obtain ⟨physical, hphysical, h⟩ := bind_eq_ok_iff.mp h
    have hsame : physical = path := by
      unfold entryPhysicalPath at hphysical
      split at hphysical
      · split at hphysical
        · next hok =>
          cases hphysical
          exact canonicalize_eq hok
        · cases hphysical
      · exact physicalPath_eq hphysical
    rw [hsame] at h
    split at h
    · cases h
    · cases h
      rfl
  · cases h
    rfl

theorem normalizePolicy_eq {policy normalized : LocalPolicy} (hconcrete : IsConcrete policy.entries)
    (h : normalizePolicy host policy = .ok normalized) : normalized = policy := by
  unfold normalizePolicy at h
  split at h
  · cases h
  · obtain ⟨entries, hentries, h⟩ := bind_eq_ok_iff.mp h
    cases h
    rw [eq_of_mapM_eq_ok hentries fun entry hentry _ => normalizeEntry_eq (hconcrete entry hentry)]

end

/-! ## The intersection of concrete profiles -/

/-- A restricted profile of concrete entries. -/
def PermissionProfile.IsConcrete (profile : PermissionProfile) : Prop :=
  profile.fileSystemSandboxPolicy.kind = .restricted
    ∧ Permissions.IsConcrete profile.fileSystemSandboxPolicy.entries

section

variable {host : Host} {cwd : AbsolutePathBuf} {authority requested result : PermissionProfile}

theorem profile_effectiveAccess {profile : PermissionProfile} {denies : Option ReadDenyMatcher}
    (h : ReadDenyMatcher.tryNewForLocalPaths host profile.fileSystemSandboxPolicy cwd = .ok denies)
    (path : AbsolutePathBuf) :
    profile.effectiveAccess host path cwd
      = .ok (effectiveAccess host profile.fileSystemSandboxPolicy denies path cwd) := by
  unfold PermissionProfile.effectiveAccess
  rw [h]
  rfl

/-- A profile made from a restricted policy gives the access of that policy. -/
theorem effectiveAccess_fromRuntimePermissions {policy : LocalPolicy}
    {network : NetworkSandboxPolicy} (hkind : policy.kind = .restricted)
    {denies : Option ReadDenyMatcher}
    (h : ReadDenyMatcher.tryNewForLocalPaths host policy cwd = .ok denies)
    (path : AbsolutePathBuf) :
    (PermissionProfile.fromRuntimePermissions policy network).effectiveAccess host path cwd
      = .ok (effectiveAccess host policy denies path cwd) := by
  obtain ⟨kind, depth, entries⟩ := policy
  obtain rfl : kind = .restricted := hkind
  exact @profile_effectiveAccess host cwd
    (PermissionProfile.fromRuntimePermissions ⟨.restricted, depth, entries⟩ network) denies h path

theorem networkSandboxPolicy_fromRuntimePermissions (policy : LocalPolicy)
    (network : NetworkSandboxPolicy) :
    (PermissionProfile.fromRuntimePermissions policy network).networkSandboxPolicy = network := by
  obtain ⟨kind, depth, entries⟩ := policy
  cases kind <;> rfl

theorem tempEntries_concrete {policy : LocalPolicy} (h : Permissions.IsConcrete policy.entries) :
    policy.entries.filter (fun entry => entry.path = .special .tmpdir) = [] := by
  refine List.filter_eq_nil_iff.mpr fun entry hentry htmp => ?_
  have hconcrete := h entry hentry
  rw [of_decide_eq_true htmp] at hconcrete
  cases hconcrete

theorem withoutTmpdir_concrete {policy : LocalPolicy} (h : Permissions.IsConcrete policy.entries) :
    withoutTmpdir policy = policy := by
  have hsame : policy.entries.filter (fun entry => entry.path ≠ .special .tmpdir)
      = policy.entries := by
    refine List.filter_eq_self.mpr fun entry hentry => decide_eq_true fun htmp => ?_
    have hconcrete := h entry hentry
    rw [htmp] at hconcrete
    cases hconcrete
  unfold withoutTmpdir
  rw [hsame]

/-- The intersection of concrete restricted profiles is made by the loop, unless they are the
same. -/
theorem intersect_cases (hauthority : authority.IsConcrete) (hrequested : requested.IsConcrete)
    (h : intersectEffectivePermissionProfiles host authority requested cwd = .ok result) :
    ∃ policy, result = .fromRuntimePermissions policy
        (intersectNetwork authority.networkSandboxPolicy requested.networkSandboxPolicy)
      ∧ (policy = authority.fileSystemSandboxPolicy ∧ policy = requested.fileSystemSandboxPolicy
        ∨ intersectPolicies host authority.fileSystemSandboxPolicy
            requested.fileSystemSandboxPolicy cwd = .ok policy) := by
  obtain ⟨hkind, hconcrete⟩ := hauthority
  obtain ⟨hkind', hconcrete'⟩ := hrequested
  unfold intersectEffectivePermissionProfiles at h
  split at h
  · cases h
  obtain ⟨_, _, h⟩ := bind_eq_ok_iff.mp h
  obtain ⟨_, _, h⟩ := bind_eq_ok_iff.mp h
  simp only [hkind, hkind', reduceCtorEq, if_false] at h
  split at h
  · next hdisabled =>
    rw [Bool.and_eq_true] at hdisabled
    cases authority with
    | disabled => cases hkind
    | _ => cases hdisabled.1
  · split at h
    · next hsame =>
      cases h
      exact ⟨_, rfl, Or.inl ⟨rfl, hsame⟩⟩
    · obtain ⟨normalized, hnormalized, h⟩ := bind_eq_ok_iff.mp h
      obtain rfl := normalizePolicy_eq hconcrete hnormalized
      obtain ⟨normalized', hnormalized', h⟩ := bind_eq_ok_iff.mp h
      obtain rfl := normalizePolicy_eq hconcrete' hnormalized'
      obtain ⟨temp, htemp, h⟩ := bind_eq_ok_iff.mp h
      have hnone : temp = none := by
        simp only [commonTemp, tempEntries_concrete hconcrete, tempEntries_concrete hconcrete']
          at htemp
        cases htemp
        rfl
      obtain ⟨intersection, hintersection, h⟩ := bind_eq_ok_iff.mp h
      rw [withoutTmpdir_concrete hconcrete, withoutTmpdir_concrete hconcrete'] at hintersection
      cases h
      refine ⟨intersection, ?_, Or.inr hintersection⟩
      rw [hnone, Option.toList_none, List.append_nil]

theorem orUnsupported_eq_ok_iff {α : Type} {x : Except String α} {value : α} :
    orUnsupported x = .ok value ↔ x = .ok value := by
  cases x <;> simp [orUnsupported]

/-- The loop of the intersection of two concrete policies. -/
theorem loopInput_of_intersectPolicies {authority requested policy : LocalPolicy}
    (hkind : authority.kind = .restricted) (hkind' : requested.kind = .restricted)
    (hconcrete : Permissions.IsConcrete authority.entries)
    (hconcrete' : Permissions.IsConcrete requested.entries)
    (h : intersectPolicies host authority requested cwd = .ok policy) :
    ∃ authorityDenies requestedDenies initial intersectionDenies paths,
      ReadDenyMatcher.tryNewForLocalPaths host authority cwd = .ok authorityDenies
      ∧ ReadDenyMatcher.tryNewForLocalPaths host requested cwd = .ok requestedDenies
      ∧ LoopInput host (authority, authorityDenies) (requested, requestedDenies) initial
        intersectionDenies cwd paths
      ∧ policy = paths.foldl (visitPath host (authority, authorityDenies)
        (requested, requestedDenies) intersectionDenies cwd) initial := by
  obtain ⟨authorityDenies, hauthority, h⟩ := bind_eq_ok_iff.mp h
  obtain ⟨requestedDenies, hrequested, h⟩ := bind_eq_ok_iff.mp h
  obtain ⟨authorityPaths, hauthorityPaths, h⟩ := bind_eq_ok_iff.mp h
  obtain ⟨requestedPaths, hrequestedPaths, h⟩ := bind_eq_ok_iff.mp h
  obtain ⟨intersectionDenies, hintersection, h⟩ := bind_eq_ok_iff.mp h
  cases h
  obtain ⟨hentries, hmetadata⟩ := visitedPaths_spec hconcrete hauthorityPaths
  obtain ⟨hentries', hmetadata'⟩ := visitedPaths_spec hconcrete' hrequestedPaths
  refine ⟨authorityDenies, requestedDenies, _, intersectionDenies, _,
    orUnsupported_eq_ok_iff.mp hauthority, orUnsupported_eq_ok_iff.mp hrequested, ?_, rfl⟩
  refine ⟨rfl, ?_, ?_, fun entry => ?_, orUnsupported_eq_ok_iff.mp hintersection, ?_, ?_,
    pairwise_length_sorted _⟩
  · simp [hkind, hkind']
  · simp [hconcrete, hconcrete']
  · show entry ∈ List.insertionSort _ _ ↔ _
    rw [List.mem_insertionSort, mem_pushNew, List.mem_filter, List.mem_append, decide_eq_true_eq]
    simp
  · intro source hsource entry hentry
    rw [mem_sorted, List.mem_append]
    rcases List.mem_pair.mp hsource with rfl | rfl
    · exact Or.inl (hentries entry hentry)
    · exact Or.inr (hentries' entry hentry)
  · intro source hsource writable hwritable name hname
    rw [mem_sorted, List.mem_append]
    rcases List.mem_pair.mp hsource with rfl | rfl
    · exact Or.inl (hmetadata writable hwritable name hname)
    · exact Or.inr (hmetadata' writable hwritable name hname)

theorem intersectNetwork_isEnabled {authority requested : NetworkSandboxPolicy}
    (h : (intersectNetwork authority requested).isEnabled = true) :
    authority.isEnabled = true ∧ requested.isEnabled = true := by
  cases authority <;> cases requested <;> first | exact ⟨rfl, rfl⟩ | cases h

/-- **The intersection of two profiles grants no more than both**, at every path, and enables the
network only if both do. -/
theorem intersection_le_both (host : Host) (authority requested result : PermissionProfile)
    (cwd path : AbsolutePathBuf) (hauthority : authority.IsConcrete)
    (hrequested : requested.IsConcrete)
    (h : intersectEffectivePermissionProfiles host authority requested cwd = .ok result) :
    (∃ left right access, authority.effectiveAccess host path cwd = .ok left
        ∧ requested.effectiveAccess host path cwd = .ok right
        ∧ result.effectiveAccess host path cwd = .ok access
        ∧ access.breadth ≤ (intersectAccess left right).breadth)
      ∧ (result.networkSandboxPolicy.isEnabled = true →
        authority.networkSandboxPolicy.isEnabled = true
          ∧ requested.networkSandboxPolicy.isEnabled = true) := by
  obtain ⟨policy, rfl, hpolicy⟩ := intersect_cases hauthority hrequested h
  obtain ⟨hkind, hconcrete⟩ := hauthority
  obtain ⟨hkind', hconcrete'⟩ := hrequested
  refine ⟨?_, fun henabled => ?_⟩
  · rcases hpolicy with ⟨rfl, hsame⟩ | hloop
    · have hdenies := tryNewForLocalPaths_concrete host cwd hconcrete
      refine ⟨_, _, _, profile_effectiveAccess hdenies path,
        profile_effectiveAccess (hsame ▸ hdenies) path,
        effectiveAccess_fromRuntimePermissions hkind hdenies path, ?_⟩
      rw [← hsame]
      generalize effectiveAccess host authority.fileSystemSandboxPolicy _ path cwd = access
      cases access <;> decide
    · obtain ⟨authorityDenies, requestedDenies, initial, intersectionDenies, paths, hleft, hright,
        hinput, rfl⟩ := loopInput_of_intersectPolicies hkind hkind' hconcrete hconcrete' hloop
      have hresult := tryNewForLocalPaths_concrete host cwd hinput.isConcrete_result
      exact ⟨_, _, _, profile_effectiveAccess hleft path, profile_effectiveAccess hright path,
        effectiveAccess_fromRuntimePermissions hinput.result_kind hresult path,
        hinput.effectiveAccess_le hresult (by simp [hleft, hright])⟩
  · rw [networkSandboxPolicy_fromRuntimePermissions] at henabled
    exact intersectNetwork_isEnabled henabled

local instance lawfulPath : LawfulBEq AbsolutePathBuf := inferInstance

/-- A host with a project and a directory in it. -/
def projectHost : Host where
  fs := fun path =>
    if path ∈ [[], ["a"], ["a", "b"]] then some .directory else none
  env := ⟨none, []⟩
  resolveGlob := fun _ pattern => .ok pattern
  buildGlobMatcher := fun _ => .error "unsupported"
  debugPath := fun path => display path.concretePath
  debugSpecial := fun _ => ""

/-- The parent may write in the project, the child asks for one directory of it. -/
def parentProfile : PermissionProfile :=
  .managed (.restricted [⟨.special .root, .read, false⟩, ⟨.path ["a"], .write, false⟩] none)
    .enabled

def childProfile : PermissionProfile :=
  .managed (.restricted [⟨.path ["a"], .read, false⟩, ⟨.path ["a", "b"], .write, false⟩] none)
    .restricted

theorem intersection_le_both_project :
    ∃ result, intersectEffectivePermissionProfiles projectHost parentProfile childProfile ["a"]
        = .ok result
      ∧ result.effectiveAccess projectHost ["a", "b", "f"] ["a"] = .ok .write
      ∧ ∃ left right access,
        parentProfile.effectiveAccess projectHost ["a", "b", "f"] ["a"] = .ok left
          ∧ childProfile.effectiveAccess projectHost ["a", "b", "f"] ["a"] = .ok right
          ∧ result.effectiveAccess projectHost ["a", "b", "f"] ["a"] = .ok access
          ∧ access.breadth ≤ (intersectAccess left right).breadth := by
  have hparent : parentProfile.IsConcrete := by
    simp [PermissionProfile.IsConcrete, parentProfile, PermissionProfile.fileSystemSandboxPolicy,
      ManagedFileSystemPermissions.toSandboxPolicy, Permissions.IsConcrete,
      FileSystemPath.IsConcrete]
  have hchild : childProfile.IsConcrete := by
    simp [PermissionProfile.IsConcrete, childProfile, PermissionProfile.fileSystemSandboxPolicy,
      ManagedFileSystemPermissions.toSandboxPolicy, Permissions.IsConcrete,
      FileSystemPath.IsConcrete]
  have hwrite : (intersectEffectivePermissionProfiles projectHost parentProfile childProfile
      ["a"]).toOption.bind (fun result =>
        (result.effectiveAccess projectHost ["a", "b", "f"] ["a"]).toOption) = some .write := by
    decide +kernel
  obtain ⟨result, hresult, hwrite⟩ := Option.bind_eq_some_iff.mp hwrite
  rw [toOption_eq_some_iff] at hresult hwrite
  exact ⟨result, hresult, hwrite, (intersection_le_both projectHost parentProfile childProfile
    result ["a"] ["a", "b", "f"] hparent hchild hresult).1⟩

end

end CodexRouter.Permissions
