import CodexRouter.Permissions.LocalPath

set_option autoImplicit false

/-! # Full-disk write access

`has_full_disk_write_access` compares the entries as they are written, `resolve_access` the paths
that they resolve to. When the first finds that nothing narrows `:root = write`, every entry
without write access has another one with write access at the same place, which is of the same
depth and so decides in its stead.
-/

namespace CodexRouter.Permissions

open PathUri

/-- A POSIX path of defined lexical depth. -/
def IsPosix {P : Type} [PathUri P] (path : P) : Prop :=
  inferPathConvention path = some .posix ∧ lexicalDepth path ≠ none

instance {P : Type} [PathUri P] (path : P) : Decidable (IsPosix path) :=
  inferInstanceAs (Decidable (_ ∧ _))

/-- What the operations of `PathUri` do on POSIX paths with a depth: they work on the decoded
components, and an absolute path replaces the path that it is joined to. -/
class PosixPathUri (P : Type) [PathUri P] where
  Component : Type
  components : P → List Component
  /-- The name `tmp`. -/
  tmp : Component
  lexicalDepth_eq (path : P) : IsPosix path → lexicalDepth path = some (components path).length
  startsWith_iff (path base : P) : IsPosix path → IsPosix base →
    (startsWith path base = true ↔ components base <+: components path)
  top_posix (path : P) : IsPosix path → IsPosix (top path) ∧ components (top path) = []
  isTop_iff (path : P) : IsPosix path → (isTop path = true ↔ components path = [])
  basename_tmp (path : P) : IsPosix path → basename path = some "tmp" →
    (components path).getLast? = some tmp
  join_tmp (path : P) : IsPosix path →
    ∃ joined, join path "/tmp" = some joined ∧ IsPosix joined ∧ components joined = [tmp]

open PosixPathUri

/-- A local path with a depth is not opaque. -/
theorem AbsolutePathBuf.not_isOpaque {path : AbsolutePathBuf} (h : IsPosix path) :
    isOpaque path = false := by
  by_contra hopaque
  exact h.2 (if_pos (by simpa using hopaque))

theorem AbsolutePathBuf.isPosix {path : AbsolutePathBuf} (h : isOpaque path = false) :
    IsPosix path :=
  ⟨rfl, by rw [uri_lexicalDepth h]; simp⟩

/-- Normalized absolute paths of a POSIX host. -/
instance : PosixPathUri AbsolutePathBuf where
  Component := String
  components := id
  tmp := "tmp"
  lexicalDepth_eq _ h := AbsolutePathBuf.uri_lexicalDepth (AbsolutePathBuf.not_isOpaque h)
  startsWith_iff _ _ h _ := AbsolutePathBuf.startsWith_iff (AbsolutePathBuf.not_isOpaque h)
  top_posix path h := by
    have htop : top path = ([] : AbsolutePathBuf) := by
      show (if AbsolutePathBuf.isOpaque path then path else []) = []
      rw [AbsolutePathBuf.not_isOpaque h]
      rfl
    rw [htop]
    exact ⟨AbsolutePathBuf.isPosix rfl, rfl⟩
  isTop_iff path h := by
    show (AbsolutePathBuf.isOpaque path || path.isEmpty) = true ↔ path = []
    simp [AbsolutePathBuf.not_isOpaque h]
  basename_tmp path h hname := by
    change (if AbsolutePathBuf.isOpaque path then none else path.getLast?) = some "tmp" at hname
    rw [AbsolutePathBuf.not_isOpaque h] at hname
    exact hname
  join_tmp path _ := by
    refine ⟨["tmp"], ?_, AbsolutePathBuf.isPosix rfl, rfl⟩
    have hnormal : AbsolutePathBuf.normalize [] (AbsolutePathBuf.segments "/tmp") = ["tmp"] := by
      decide
    show AbsolutePathBuf.join path "/tmp" = some ["tmp"]
    simp [AbsolutePathBuf.join, hnormal]

theorem FileSystemAccessMode.eq_read_of_lt_write {access : FileSystemAccessMode}
    (h : access < .write) : access = .read := by
  cases access with
  | read => rfl
  | write | deny => exact absurd h (by decide)

namespace FileSystemSandboxPolicy

variable {P : Type} [PathUri P] {policy : FileSystemSandboxPolicy P}
  {context : FileSystemSandboxPolicyContext P}

theorem mem_resolvedEntries {resolved : P × FileSystemAccessMode} :
    resolved ∈ policy.resolvedEntries context
      ↔ ∃ entry ∈ policy.entries, resolved.1 ∈ entryPaths context entry.path
        ∧ inferPathConvention resolved.1 = inferPathConvention context.cwd
        ∧ resolved.2 = entry.access := by
  simp only [resolvedEntries, resolvedEntry, List.mem_flatMap, List.mem_map, List.mem_filter,
    decide_eq_true_eq]
  constructor
  · rintro ⟨entry, hentry, path, ⟨hpath, hconvention⟩, rfl⟩
    exact ⟨entry, hentry, hpath, hconvention, rfl⟩
  · rintro ⟨entry, hentry, hpath, hconvention, haccess⟩
    exact ⟨entry, hentry, resolved.1, ⟨hpath, hconvention⟩, Prod.ext rfl haccess.symm⟩

theorem coveringEntries_posix {path : P} (hcwd : IsPosix context.cwd)
    (hentries : ∀ resolved ∈ policy.resolvedEntries context, IsPosix resolved.1)
    (hpath : IsPosix path) :
    policy.coveringEntries path context = some (((policy.resolvedEntries context).filterMap
      withDepth).filter fun entry => startsWith path entry.1) := by
  have hall : (policy.resolvedEntries context).all (fun entry => comparable entry.1) = true := by
    refine List.all_eq_true.mpr fun entry hentry => ?_
    simp [comparable, Option.isSome_iff_ne_none, (hentries entry hentry).2]
  simp [coveringEntries, hcwd.1, hcwd.2, hpath.1, hpath.2, lexicalEntries_eq, hall]

variable [PosixPathUri P]

/-- An entry covers the path with its depth. -/
theorem mem_covering {path place : P} {access : FileSystemAccessMode} {depth : Nat}
    (hentries : ∀ resolved ∈ policy.resolvedEntries context, IsPosix resolved.1)
    (hpath : IsPosix path) :
    (place, access, depth) ∈ ((policy.resolvedEntries context).filterMap withDepth).filter
        (fun entry => startsWith path entry.1)
      ↔ (place, access) ∈ policy.resolvedEntries context
        ∧ components place <+: components path ∧ depth = (components place).length := by
  simp only [List.mem_filter, List.mem_filterMap, withDepth, Option.map_eq_some_iff, Prod.exists,
    Prod.mk.injEq]
  constructor
  · rintro ⟨⟨place', access', hresolved, depth', hdepth, rfl, rfl, rfl⟩, hstarts⟩
    have hposix := hentries _ hresolved
    rw [lexicalDepth_eq _ hposix, Option.some.injEq] at hdepth
    exact ⟨hresolved, (startsWith_iff path place' hpath hposix).mp hstarts, hdepth.symm⟩
  · rintro ⟨hresolved, hcovers, rfl⟩
    have hposix : IsPosix place := hentries _ hresolved
    exact ⟨⟨place, access, hresolved, _, lexicalDepth_eq place hposix, rfl, rfl, rfl⟩,
      (startsWith_iff path place hpath hposix).mpr hcovers⟩

/-- The place that a special path names whatever the working directory. -/
theorem components_of_specialPathMatchesPathUri {value : FileSystemSpecialPath} {path : P}
    (hcwd : IsPosix context.cwd) (hpath : IsPosix path)
    (h : specialPathMatchesPathUri value path = true) :
    ∃ place ∈ entryPaths context (.special value), IsPosix place
      ∧ components place = components path := by
  cases value with
  | root =>
    obtain ⟨htop, hcomponents⟩ := top_posix context.cwd hcwd
    simp only [specialPathMatchesPathUri, Bool.and_eq_true] at h
    refine ⟨top context.cwd, ?_, htop, ?_⟩
    · obtain ⟨depth, hdepth⟩ := Option.ne_none_iff_exists'.mp hcwd.2
      simp [entryPaths, fileSystemRoot, hdepth]
    · rw [hcomponents, (isTop_iff path hpath).mp h.2]
  | slashTmp =>
    obtain ⟨place, hplace, hposix, hcomponents⟩ := join_tmp context.cwd hcwd
    simp only [specialPathMatchesPathUri, Bool.and_eq_true, decide_eq_true_eq] at h
    refine ⟨place, by simp [entryPaths, hcwd.1, hplace], hposix, ?_⟩
    have hlast := basename_tmp path hpath h.2
    have hdepth := lexicalDepth_eq path hpath
    rw [h.1.2, Option.some.injEq] at hdepth
    obtain ⟨component, hcomponent⟩ := List.length_eq_one_iff.mp hdepth.symm
    rw [hcomponent] at hlast ⊢
    rw [hcomponents]
    simpa using hlast.symm
  | _ => simp [specialPathMatchesPathUri] at h

variable [DecidableEq P]

/-- Entries that share a target resolve to the same places. -/
theorem exists_place_of_share {left right : FileSystemPath P} {place : P}
    (hcwd : IsPosix context.cwd) (hplace : IsPosix place)
    (hright : place ∈ entryPaths context right)
    (h : fileSystemPathsShareTarget left right .posix = true) :
    ∃ other ∈ entryPaths context left, inferPathConvention other = some .posix
      ∧ (IsPosix other → components other = components place) := by
  cases right with
  | globPattern => cases hright
  | path path =>
    cases List.mem_singleton.mp hright
    cases left with
    | globPattern => cases h
    | path path =>
      cases of_decide_eq_true h
      exact ⟨place, hright, hplace.1, fun _ => rfl⟩
    | special value =>
      simp only [fileSystemPathsShareTarget, Bool.and_eq_true] at h
      obtain ⟨other, hother, hposix, hcomponents⟩ :=
        components_of_specialPathMatchesPathUri hcwd hplace h.2
      exact ⟨other, hother, hposix.1, fun _ => hcomponents⟩
  | special value =>
    cases left with
    | globPattern => cases h
    | path path =>
      simp only [fileSystemPathsShareTarget, Bool.and_eq_true, decide_eq_true_eq] at h
      refine ⟨path, List.mem_singleton_self _, h.1, fun hposix => ?_⟩
      obtain ⟨other, hother, _, hcomponents⟩ :=
        components_of_specialPathMatchesPathUri hcwd hposix h.2
      -- `:root` and `/tmp` resolve to one place
      have hone : other = place := by
        cases value with
        | root =>
          simp only [entryPaths, Option.mem_toList] at hother hright
          exact Option.mem_unique hother hright
        | slashTmp =>
          simp only [entryPaths, hcwd.1, if_true, Option.mem_toList] at hother hright
          exact Option.mem_unique hother hright
        | _ => simp [specialPathMatchesPathUri] at h
      rw [← hcomponents, hone]
    | special value' =>
      cases of_decide_eq_true h
      exact ⟨place, hright, hplace.1, fun _ => rfl⟩

section

variable (hcwd : IsPosix context.cwd) (hkind : policy.kind = .restricted)
  (hfull : policy.hasFullDiskWriteAccessWithContext context = true)

include hcwd hkind hfull

/-- Where nothing narrows `:root = write`, an entry without write access is a read entry, and one
with write access lies at the same place. -/
theorem exists_write_at_place
    (hentries : ∀ resolved ∈ policy.resolvedEntries context, IsPosix resolved.1) {place : P}
    {access : FileSystemAccessMode} (hresolved : (place, access) ∈ policy.resolvedEntries context)
    (haccess : access ≠ .write) :
    access = .read ∧ ∃ other, (other, .write) ∈ policy.resolvedEntries context
      ∧ components other = components place := by
  obtain ⟨entry, hentry, hplace, hconvention, rfl⟩ := mem_resolvedEntries.mp hresolved
  have hposix : IsPosix place := hentries _ hresolved
  simp only [hasFullDiskWriteAccessWithContext, hasFullDiskWriteAccessForConvention, hkind, hcwd.1,
    hasRootAccess, hasWriteNarrowingEntries, decide_true, Bool.true_and, Bool.and_eq_true,
    Bool.not_eq_true', List.any_eq_true, List.any_eq_false, decide_eq_true_eq] at hfull
  obtain ⟨⟨root, hroot, hrootPath, hrootAccess⟩, hnarrows⟩ := hfull
  have hnarrow := hnarrows entry hentry
  have hcanWrite : entry.access.canWrite = false := by
    simpa [FileSystemAccessMode.canWrite] using haccess
  simp only [narrowsWrite, hcanWrite, Bool.false_eq_true, if_false] at hnarrow
  -- an override is a write entry for the same place, and only a read entry has one
  have hoverride : policy.hasSameTargetWriteOverride entry .posix = true →
      entry.access = .read ∧ ∃ other, (other, .write) ∈ policy.resolvedEntries context
        ∧ components other = components place := by
    intro h
    simp only [hasSameTargetWriteOverride, List.any_eq_true, Bool.and_eq_true,
      FileSystemAccessMode.canWrite_iff, decide_eq_true_eq] at h
    obtain ⟨candidate, hcandidate, ⟨hwrite, hlt⟩, hshare⟩ := h
    obtain ⟨other, hother, hotherPosix, hcomponents⟩ :=
      exists_place_of_share hcwd hposix hplace hshare
    have hmem : (other, FileSystemAccessMode.write) ∈ policy.resolvedEntries context :=
      mem_resolvedEntries.mpr
        ⟨candidate, hcandidate, hother, hotherPosix.trans hcwd.1.symm, hwrite.symm⟩
    rw [hwrite] at hlt
    exact ⟨FileSystemAccessMode.eq_read_of_lt_write hlt, other, hmem,
      hcomponents (hentries _ hmem)⟩
  cases hpath : entry.path with
  | path path =>
    simp only [hpath, Bool.not_eq_true', Bool.not_eq_false] at hnarrow
    exact hoverride hnarrow
  | globPattern => rw [hpath] at hplace; cases hplace
  | special value =>
    rw [hpath] at hplace hnarrow
    cases value with
    | root =>
      -- `:root = read` gives way to `:root = write`
      have hread : entry.access = .read := by
        cases haccess' : entry.access with
        | read => rfl
        | write => exact absurd haccess' haccess
        | deny => simp [haccess'] at hnarrow
      refine ⟨hread, place, mem_resolvedEntries.mpr ⟨root, hroot, ?_, hconvention, ?_⟩, rfl⟩
      · rw [hrootPath]
        exact hplace
      · exact (FileSystemAccessMode.canWrite_iff.mp hrootAccess).symm
    | minimal | unknown => cases hplace
    | slashTmp | projectRoots | tmpdir =>
      simp only [reduceCtorEq, if_false, Bool.not_eq_true', Bool.not_eq_false] at hnarrow
      exact hoverride hnarrow

/-- The root covers every path, with write access. -/
theorem root_mem_resolvedEntries :
    (top context.cwd, .write) ∈ policy.resolvedEntries context := by
  simp only [hasFullDiskWriteAccessWithContext, hasFullDiskWriteAccessForConvention, hkind, hcwd.1,
    hasRootAccess, decide_true, Bool.true_and, Bool.and_eq_true, List.any_eq_true,
    decide_eq_true_eq] at hfull
  obtain ⟨⟨root, hroot, hrootPath, hrootAccess⟩, _⟩ := hfull
  obtain ⟨depth, hdepth⟩ := Option.ne_none_iff_exists'.mp hcwd.2
  refine mem_resolvedEntries.mpr ⟨root, hroot, ?_, ?_, ?_⟩
  · simp [hrootPath, entryPaths, fileSystemRoot, hdepth]
  · rw [(top_posix context.cwd hcwd).1.1, hcwd.1]
  · exact (FileSystemAccessMode.canWrite_iff.mp hrootAccess).symm

end

/-- **Full-disk write access is sound.** When the entries as written narrow nothing, the entries
as resolved let every path be written. -/
theorem resolveAccess_of_fullDisk (policy : FileSystemSandboxPolicy P)
    (context : FileSystemSandboxPolicyContext P) (path : P) (hkind : policy.kind = .restricted)
    (hcwd : IsPosix context.cwd)
    (hentries : ∀ resolved ∈ policy.resolvedEntries context, IsPosix resolved.1)
    (hfull : policy.hasFullDiskWriteAccessWithContext context = true) (hpath : IsPosix path) :
    policy.resolveAccess path context = .write := by
  refine (resolveAccess_eq_iff hkind (by decide)).mpr
    ⟨_, coveringEntries_posix hcwd hentries hpath, ?_⟩
  generalize hcovering : ((policy.resolvedEntries context).filterMap withDepth).filter
    (fun entry => startsWith path entry.1) = covering
  have hmem : ∀ place access depth, (place, access, depth) ∈ covering
      ↔ (place, access) ∈ policy.resolvedEntries context
        ∧ components place <+: components path ∧ depth = (components place).length := by
    grind [mem_covering]
  have hroot : (top context.cwd, FileSystemAccessMode.write, 0) ∈ covering := by
    have hcomponents := (top_posix context.cwd hcwd).2
    refine (hmem _ _ _).mpr ⟨root_mem_resolvedEntries hcwd hkind hfull, ?_, ?_⟩ <;>
      simp [hcomponents]
  obtain ⟨⟨place, access, depth⟩, hbest⟩ := Option.ne_none_iff_exists'.mp
    (fun h => List.ne_nil_of_mem hroot (List.argmax_eq_none.mp h) :
      covering.argmax specificity ≠ none)
  have hplace := List.argmax_mem hbest
  by_cases haccess : access = .write
  · exact ⟨_, hplace, haccess, fun other hother => List.le_of_mem_argmax hother hbest⟩
  · -- a write entry of the same depth would be more specific
    obtain ⟨hresolved, hcovers, hdepth⟩ := (hmem _ _ _).mp hplace
    obtain ⟨hread, other, hother, hcomponents⟩ :=
      exists_write_at_place hcwd hkind hfull hentries hresolved haccess
    have hin : (other, FileSystemAccessMode.write, depth) ∈ covering :=
      (hmem _ _ _).mpr ⟨hother, hcomponents ▸ hcovers, hcomponents ▸ hdepth⟩
    have hle := List.le_of_mem_argmax hin hbest
    rw [hread, specificity, specificity, Prod.Lex.toLex_le_toLex] at hle
    rcases hle with hlt | ⟨_, hle⟩
    · exact absurd hlt (lt_irrefl _)
    · have hgt : ¬ FileSystemAccessMode.write ≤ .read := by decide
      exact absurd hle hgt

end FileSystemSandboxPolicy

/-- `/tmp` is read-only by its path and writable by its name, below a writable root. -/
def shadowedPolicy : FileSystemSandboxPolicy AbsolutePathBuf :=
  .restricted [⟨.special .root, .write, false⟩, ⟨.path ["tmp"], .read, false⟩,
    ⟨.special .slashTmp, .write, false⟩, ⟨.special .root, .read, false⟩]

theorem resolveAccess_of_fullDisk_shadowed :
    shadowedPolicy.hasFullDiskWriteAccessWithContext (localContext ⟨none, []⟩ ["home"]) = true
      ∧ shadowedPolicy.resolveAccess ["tmp", "file"] (localContext ⟨none, []⟩ ["home"])
        = .write := by
  have hfull : shadowedPolicy.hasFullDiskWriteAccessWithContext
      (localContext ⟨none, []⟩ ["home"]) = true := by
    decide +kernel
  exact ⟨hfull, shadowedPolicy.resolveAccess_of_fullDisk _ _ rfl (by decide +kernel)
    (by decide +kernel) hfull (by decide +kernel)⟩

end CodexRouter.Permissions
