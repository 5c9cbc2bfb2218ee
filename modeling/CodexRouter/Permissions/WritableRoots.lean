import CodexRouter.Lib.Chars
import CodexRouter.Permissions.LocalPolicy

set_option autoImplicit false

/-! # Writable roots

Platform sandboxes do not ask the policy about every path. They are given writable roots, each
with subpaths that stay read-only and metadata names that stay protected right below the root
(`getWritableRootsWithCwd`). This module is about a POSIX host without symbolic links: there the
effective path of an entry is the path itself.
-/

namespace CodexRouter.Permissions

open AbsolutePathBuf

/-! ## The file system -/

inductive FileNode
  | directory
  -- `none` if the contents are not text
  | file (contents : Option String)
deriving DecidableEq

/-- What is at each path. -/
abbrev FileSystem := AbsolutePathBuf → Option FileNode

namespace FileSystem

def isDir (fs : FileSystem) (path : AbsolutePathBuf) : Bool := fs path = some .directory

def isFile (fs : FileSystem) (path : AbsolutePathBuf) : Bool :=
  match fs path with
  | some (.file _) => true
  | _ => false

def readToString (fs : FileSystem) (path : AbsolutePathBuf) : Option String :=
  match fs path with
  | some (.file contents) => contents
  | _ => none

end FileSystem

/-- `AbsolutePathBuf::resolve_path_against_base`: `~` is the home directory. -/
def resolvePathAgainstBase (env : LocalEnvironment) (path : List Char) (base : AbsolutePathBuf) :
    AbsolutePathBuf :=
  let against := fun (path : List Char) =>
    normalize (if path.head? = some '/' then [] else base) (segments (String.ofList path))
  match path, env.userHomeDir with
  | ['~'], some home => home
  | '~' :: '/' :: rest, some home => normalize home (segments (String.ofList rest))
  | path, _ => against path

/-- The directory that a `.git` file points to. -/
def resolveGitdirFromFile (fs : FileSystem) (env : LocalEnvironment) (dotGit : AbsolutePathBuf) :
    Option AbsolutePathBuf :=
  match fs.readToString dotGit with
  | none => none
  | some contents =>
    let trimmed := Lib.trim contents.toList
    if ':' ∉ trimmed then none
    else
      let label := trimmed.takeWhile (· ≠ ':')
      let gitdirRaw := Lib.trim ((trimmed.dropWhile (· ≠ ':')).drop 1)
      if Lib.trim label ≠ "gitdir".toList ∨ gitdirRaw = [] ∨ dotGit = [] then none
      else
        let gitdirPath := resolvePathAgainstBase env gitdirRaw dotGit.dropLast
        if (fs gitdirPath).isSome then some gitdirPath else none

/-- `default_read_only_subpaths_for_writable_root`. -/
def defaultReadOnlySubpaths (fs : FileSystem) (env : LocalEnvironment)
    (writableRoot : AbsolutePathBuf) (protectMissingDotCodex : Bool) : List AbsolutePathBuf :=
  let topLevelGit := writableRoot ++ [".git"]
  let gitdir :=
    if fs.isFile topLevelGit then (resolveGitdirFromFile fs env topLevelGit).toList else []
  let git := if fs.isDir topLevelGit || fs.isFile topLevelGit then gitdir ++ [topLevelGit] else []
  let topLevelAgents := writableRoot ++ [".agents"]
  let agents := if fs.isDir topLevelAgents then [topLevelAgents] else []
  let topLevelCodex := writableRoot ++ [".codex"]
  let codex := if protectMissingDotCodex || fs.isDir topLevelCodex then [topLevelCodex] else []
  (git ++ agents ++ codex).eraseDups

/-! ## Writable roots -/

structure WritableRoot where
  root : AbsolutePathBuf
  readOnlySubpaths : List AbsolutePathBuf
  protectedMetadataNames : List String

/-- The path is below the root, not below a read-only subpath, and does not go through a
protected name right below the root. A `..` of the path is a component like any other. -/
def WritableRoot.isPathWritable (root : WritableRoot) (path : NativePath) : Bool :=
  root.root.isPrefixOf path && !root.readOnlySubpaths.any (·.isPrefixOf path)
    && !((path.drop root.root.length).head?.any fun first =>
      root.protectedMetadataNames.any fun name => first = name)

section

variable (fs : FileSystem) (env : LocalEnvironment)

/-- `resolve_file_system_special_path`, and the root of the working directory. -/
def resolveSpecialPath (cwd : AbsolutePathBuf) : FileSystemSpecialPath → Option AbsolutePathBuf
  | .root => some []
  | .minimal | .unknown _ _ => none
  | .projectRoots (some subpath) => some (resolvePathAgainstBase env subpath.toList cwd)
  | .projectRoots none => some cwd
  | .tmpdir => env.temporaryDirectories.head?
  | .slashTmp => if fs.isDir ["tmp"] then some ["tmp"] else none

def resolveEntryPath (cwd : AbsolutePathBuf) : FileSystemPath AbsolutePathBuf →
    Option AbsolutePathBuf
  | .path path => some path
  | .globPattern _ => none
  | .special value => resolveSpecialPath fs env cwd value

namespace FileSystemSandboxPolicy

def resolvedEntriesWithCwd (policy : LocalPolicy) (cwd : AbsolutePathBuf) : ResolvedEntries :=
  policy.entries.filterMap fun entry =>
    (resolveEntryPath fs env cwd entry.path).map fun path => (path, entry.access)

/-- `can_write_local_path_with_cwd` of an `AbsolutePathBuf`, which is its own candidate path. -/
def canWriteAbsolutePath (policy : LocalPolicy) (path cwd : AbsolutePathBuf) : Bool :=
  policy.canWritePath path (localContext env cwd)

def canWriteLocalPathWithCwd (policy : LocalPolicy) (path : NativePath) (cwd : AbsolutePathBuf) :
    Bool :=
  policy.canWriteAbsolutePath env (resolveCandidatePath path) cwd

def hasFullDiskWriteAccess (policy : LocalPolicy) : Bool :=
  policy.hasFullDiskWriteAccessForConvention (some .posix)

/-- `protected_metadata_names_for_writable_root`. -/
def protectedMetadataNames (policy : LocalPolicy) (root cwd : AbsolutePathBuf) : List String :=
  protectedMetadataPathNames.filter fun metadataName =>
    !policy.canWriteAbsolutePath env (root ++ [metadataName]) cwd

/-- The entries that say what the policy says at their own path. -/
def effectiveEntries (policy : LocalPolicy) (cwd : AbsolutePathBuf) : ResolvedEntries :=
  (policy.resolvedEntriesWithCwd fs env cwd).filter fun entry =>
    entry.2.canWrite = policy.canWriteAbsolutePath env entry.1 cwd

def writableRoot (policy : LocalPolicy) (cwd root : AbsolutePathBuf) : WritableRoot :=
  let defaults := (defaultReadOnlySubpaths fs env root (cwd = root)).filter fun path =>
    !(policy.resolvedEntriesWithCwd fs env cwd).any fun entry => entry.1 = path
  let carveouts := ((policy.effectiveEntries fs env cwd).filter fun entry =>
    !entry.2.canWrite && entry.1 ≠ root && root.isPrefixOf entry.1).map Prod.fst
  { root := root
    readOnlySubpaths := (defaults ++ carveouts).eraseDups
    protectedMetadataNames := policy.protectedMetadataNames env root cwd }

def getWritableRootsWithCwd (policy : LocalPolicy) (cwd : AbsolutePathBuf) : List WritableRoot :=
  if policy.hasFullDiskWriteAccess then []
  else
    (((policy.effectiveEntries fs env cwd).filter fun entry => entry.2.canWrite).map
      Prod.fst).eraseDups.map (policy.writableRoot fs env cwd)

end FileSystemSandboxPolicy

end

/-! ## Policies of concrete paths -/

variable {policy : LocalPolicy} {fs : FileSystem} {env : LocalEnvironment}
  {cwd root path : AbsolutePathBuf}

/-- The two ways to resolve entries agree on concrete paths. -/
theorem resolvedEntriesWithCwd_eq (fs : FileSystem) (env : LocalEnvironment)
    (hconcrete : ∀ entry ∈ policy.entries, entry.path.IsConcrete)
    (hcwd : isOpaque cwd = false) :
    policy.resolvedEntriesWithCwd fs env cwd = policy.resolvedEntries (localContext env cwd) := by
  have hentry : ∀ entry ∈ policy.entries, (resolveEntryPath fs env cwd entry.path).map
      (fun path => (path, entry.access)) = some (entry.path.concretePath, entry.access) := by
    rintro ⟨entryPath, access, skips⟩ hmem
    rcases (hconcrete _ hmem).cases with ⟨_, rfl⟩ | rfl
    · rfl
    · rfl
  have hcontext : isOpaque (localContext env cwd).cwd = false := hcwd
  rw [resolvedEntries_concrete hcontext hconcrete, concreteEntries, ← List.filterMap_eq_map,
    FileSystemSandboxPolicy.resolvedEntriesWithCwd]
  exact List.filterMap_congr hentry

/-! ## What a writable root lets through -/

/-- The policy lets the path be written, full-disk access apart. -/
def IsOpen (policy : LocalPolicy) (env : LocalEnvironment) (cwd path : AbsolutePathBuf) : Prop :=
  policy.resolveAccess path (localContext env cwd) = .write
    ∧ policy.metadataWriteDenial path (localContext env cwd) = none

/-- A writable entry that decides at its own path lies above the path, and nothing that the
policy sets aside below it does: no other entry, no default, no metadata name. -/
structure Reaches (policy : LocalPolicy) (fs : FileSystem) (env : LocalEnvironment)
    (cwd root path : AbsolutePathBuf) : Prop where
  mem : (root, .write) ∈ policy.resolvedEntriesWithCwd fs env cwd
  decides : policy.resolveAccess root (localContext env cwd) = .write
  above : root <+: path
  entries : ∀ entry ∈ policy.resolvedEntriesWithCwd fs env cwd, entry.2 ≠ .write → entry.1 ≠ root →
    root <+: entry.1 → entry.1 <+: path → IsOpen policy env cwd entry.1
  defaults : ∀ subpath ∈ defaultReadOnlySubpaths fs env root (cwd = root),
    (∀ entry ∈ policy.resolvedEntriesWithCwd fs env cwd, entry.1 ≠ subpath) → ¬ subpath <+: path
  names : ∀ name ∈ protectedMetadataPathNames, root ++ [name] <+: path →
    IsOpen policy env cwd (root ++ [name])

/-- A name right below the root is the next component of the path. -/
theorem head?_drop_eq_some_iff (hroot : root <+: path) {name : String} :
    (path.drop root.length).head? = some name ↔ root ++ [name] <+: path := by
  obtain ⟨suffix, rfl⟩ := hroot
  rw [List.drop_left, List.prefix_append_right_inj]
  cases suffix with
  | nil => simp
  | cons first rest => simp [List.cons_prefix_cons, eq_comm]

variable (hkind : policy.kind = .restricted)
  (hconcrete : ∀ entry ∈ policy.entries, entry.path.IsConcrete)

include hkind

theorem not_isOpaque_of_grants (h : policy.resolveAccess path (localContext env cwd) ≠ .deny) :
    isOpaque cwd = false ∧ isOpaque path = false := by
  by_contra hdrive
  rw [not_and_or, Bool.not_eq_false, Bool.not_eq_false] at hdrive
  exact h (resolveAccess_of_isOpaque hkind hdrive)

theorem not_isOpaque_of_write (h : policy.resolveAccess path (localContext env cwd) = .write) :
    isOpaque cwd = false ∧ isOpaque path = false :=
  not_isOpaque_of_grants hkind (h.trans_ne (by decide))

/-- A writable entry is open at its own path if it decides there: it reopens every metadata
directory around it. -/
theorem isOpen_of_decides
    (hmem : (root, .write) ∈ policy.resolvedEntries (localContext env cwd))
    (hdecides : policy.resolveAccess root (localContext env cwd) = .write) :
    IsOpen policy env cwd root := by
  have hroot := (not_isOpaque_of_write hkind hdecides).2
  refine ⟨hdecides, (FileSystemSandboxPolicy.metadataWriteDenial_eq_none_iff hkind).mpr ?_⟩
  intro found hfound
  obtain ⟨_, _, _, _, hbelow⟩ := of_firstProtected_eq_some hroot hfound
  exact (reopens_iff hroot).mpr ⟨root, hmem, hbelow, List.prefix_refl root⟩

omit hkind

section

variable (hdisk : policy.hasFullDiskWriteAccess = false)

include hdisk

theorem canWriteAbsolutePath_iff_isOpen :
    policy.canWriteAbsolutePath env path cwd = true ↔ IsOpen policy env cwd path := by
  have hdisk : policy.hasFullDiskWriteAccessWithContext (localContext env cwd) = false := hdisk
  simp [FileSystemSandboxPolicy.canWriteAbsolutePath, FileSystemSandboxPolicy.canWritePath,
    IsOpen, hdisk]

/-- The read-only subpaths of a writable root: the defaults without an entry of their own, and
the entries below the root that keep the policy from writing at their own path. -/
theorem mem_readOnlySubpaths {subpath : AbsolutePathBuf} :
    subpath ∈ (policy.writableRoot fs env cwd root).readOnlySubpaths
      ↔ (subpath ∈ defaultReadOnlySubpaths fs env root (cwd = root)
          ∧ ∀ entry ∈ policy.resolvedEntriesWithCwd fs env cwd, entry.1 ≠ subpath)
        ∨ ∃ entry ∈ policy.resolvedEntriesWithCwd fs env cwd, entry.2 ≠ .write ∧ entry.1 ≠ root
          ∧ root <+: entry.1 ∧ ¬ IsOpen policy env cwd entry.1 ∧ entry.1 = subpath := by
  have heffective : ∀ entry : AbsolutePathBuf × FileSystemAccessMode, entry.2 ≠ .write →
      (entry.2.canWrite = policy.canWriteAbsolutePath env entry.1 cwd
        ↔ ¬ IsOpen policy env cwd entry.1) := by
    intro entry hentry
    have hfalse : entry.2.canWrite = false := by simpa [FileSystemAccessMode.canWrite] using hentry
    rw [hfalse, ← canWriteAbsolutePath_iff_isOpen hdisk, Bool.not_eq_true, eq_comm]
  simp only [FileSystemSandboxPolicy.writableRoot, FileSystemSandboxPolicy.effectiveEntries,
    List.mem_eraseDups, List.mem_append, List.mem_filter, List.mem_map, Bool.not_eq_true',
    List.any_eq_false, decide_eq_true_eq, Bool.and_eq_true, List.isPrefixOf_iff_prefix]
  refine or_congr Iff.rfl (exists_congr fun entry => ?_)
  constructor
  · grind [FileSystemAccessMode.canWrite]
  · rintro ⟨hmem, hwrite, hne, hbelow, hopen, heq⟩
    exact ⟨⟨⟨hmem, (heffective entry hwrite).mpr hopen⟩,
      ⟨by simpa [FileSystemAccessMode.canWrite] using hwrite, hne⟩, hbelow⟩, heq⟩

/-- What a writable root accepts, in terms of the policy. -/
theorem isPathWritable_iff :
    (policy.writableRoot fs env cwd root).isPathWritable path = true
      ↔ root <+: path
        ∧ (∀ subpath ∈ (policy.writableRoot fs env cwd root).readOnlySubpaths, ¬ subpath <+: path)
        ∧ ∀ name ∈ protectedMetadataPathNames, root ++ [name] <+: path →
          IsOpen policy env cwd (root ++ [name]) := by
  have hroot : (policy.writableRoot fs env cwd root).root = root := rfl
  have hnames : (policy.writableRoot fs env cwd root).protectedMetadataNames
      = policy.protectedMetadataNames env root cwd := rfl
  simp only [WritableRoot.isPathWritable, Bool.and_eq_true, Bool.not_eq_true', List.any_eq_false,
    List.isPrefixOf_iff_prefix, hroot, hnames, and_assoc]
  refine and_congr_right fun habove => and_congr_right fun _ => ?_
  rw [← Bool.not_eq_true, Option.any_eq_true]
  constructor
  · intro h name hname hbelow
    by_contra hopen
    rw [← canWriteAbsolutePath_iff_isOpen hdisk] at hopen
    refine h ⟨name, (head?_drop_eq_some_iff habove).mpr hbelow, List.any_eq_true.mpr
      ⟨name, List.mem_filter.mpr ⟨hname, by simpa using hopen⟩, by simp⟩⟩
  · rintro h ⟨first, hfirst, hany⟩
    obtain ⟨name, hname, heq⟩ := List.any_eq_true.mp hany
    obtain ⟨hmem, hclosed⟩ := List.mem_filter.mp hname
    obtain rfl : first = name := by simpa using heq
    have hopen := h first hmem ((head?_drop_eq_some_iff habove).mp hfirst)
    rw [(canWriteAbsolutePath_iff_isOpen hdisk).mpr hopen] at hclosed
    cases hclosed

include hkind hconcrete

/-- The writable roots are the writable entries that decide at their own path. -/
theorem mem_getWritableRootsWithCwd_iff {writable : WritableRoot} :
    writable ∈ policy.getWritableRootsWithCwd fs env cwd
      ↔ ∃ root, ((root, .write) ∈ policy.resolvedEntriesWithCwd fs env cwd
          ∧ policy.resolveAccess root (localContext env cwd) = .write)
        ∧ policy.writableRoot fs env cwd root = writable := by
  have hroots : ∀ root, root ∈ (((policy.effectiveEntries fs env cwd).filter fun entry =>
      entry.2.canWrite).map Prod.fst).eraseDups
        ↔ (root, .write) ∈ policy.resolvedEntriesWithCwd fs env cwd
          ∧ policy.resolveAccess root (localContext env cwd) = .write := by
    intro root
    simp only [List.mem_eraseDups, List.mem_map, FileSystemSandboxPolicy.effectiveEntries,
      List.mem_filter, decide_eq_true_eq, FileSystemAccessMode.canWrite_iff]
    constructor
    · rintro ⟨⟨path, access⟩, ⟨⟨hmem, hcan⟩, rfl⟩, rfl⟩
      exact ⟨hmem, ((canWriteAbsolutePath_iff_isOpen hdisk).mp hcan.symm).1⟩
    · rintro ⟨hmem, hdecides⟩
      have hcwd := (not_isOpaque_of_write hkind hdecides).1
      have hopen := isOpen_of_decides hkind (resolvedEntriesWithCwd_eq fs env hconcrete hcwd ▸ hmem)
        hdecides
      have hcan := (canWriteAbsolutePath_iff_isOpen hdisk).mpr hopen
      exact ⟨(root, .write), ⟨⟨hmem, hcan.symm⟩, rfl⟩, rfl⟩
  simp only [FileSystemSandboxPolicy.getWritableRootsWithCwd, hdisk, Bool.false_eq_true, if_false,
    List.mem_map, hroots]

/-- The writable roots that accept a path are the writable entries that reach it. -/
theorem accepts_iff_reaches :
    (∃ writable ∈ policy.getWritableRootsWithCwd fs env cwd, writable.isPathWritable path = true)
      ↔ ∃ root, Reaches policy fs env cwd root path := by
  simp only [mem_getWritableRootsWithCwd_iff hkind hconcrete hdisk]
  constructor
  · rintro ⟨writable, ⟨root, ⟨hmem, hdecides⟩, rfl⟩, hwritable⟩
    obtain ⟨habove, hsubpaths, hnames⟩ := (isPathWritable_iff hdisk).mp hwritable
    refine ⟨root, hmem, hdecides, habove, ?_, ?_, hnames⟩
    · intro entry hentry hwrite hne hbelow hpath
      by_contra hopen
      exact hsubpaths entry.1 ((mem_readOnlySubpaths hdisk).mpr
        (Or.inr ⟨entry, hentry, hwrite, hne, hbelow, hopen, rfl⟩)) hpath
    · intro subpath hsubpath hentries
      exact hsubpaths subpath ((mem_readOnlySubpaths hdisk).mpr (Or.inl ⟨hsubpath, hentries⟩))
  · rintro ⟨root, h⟩
    refine ⟨_, ⟨root, ⟨h.mem, h.decides⟩, rfl⟩, (isPathWritable_iff hdisk).mpr
      ⟨h.above, fun subpath hsubpath => ?_, h.names⟩⟩
    rcases (mem_readOnlySubpaths hdisk).mp hsubpath with
      ⟨hdefault, hentries⟩ | ⟨entry, hentry, hwrite, hne, hbelow, hopen, rfl⟩
    · exact h.defaults subpath hdefault hentries
    · exact fun hpath => hopen (h.entries entry hentry hwrite hne hbelow hpath)

end

/-- What a writable root that reaches the path does not know of: that the policy has no say on a
place with a drive letter in front, that a `..` leads to a place which is not writable, and that a
writable entry, strictly below the root unless a `..` leads there, protects a metadata directory
around the place. -/
def Overlooked (policy : LocalPolicy) (env : LocalEnvironment) (cwd root : AbsolutePathBuf)
    (path : NativePath) : Prop :=
  let entries := policy.resolvedEntries (localContext env cwd)
  let place := resolveCandidatePath path
  isOpaque place = true
    ∨ (place ≠ path ∧ ∀ entry, ¬ Deepest entries place entry .write)
    ∨ ∃ found ∈ firstProtected entries place, reopens entries place found.1 = false
      ∧ (place = path → root.length + 1 < found.1.length)

include hkind

theorem not_overlooked_of_isOpen (h : IsOpen policy env cwd (resolveCandidatePath path)) :
    ¬ Overlooked policy env cwd root path := by
  obtain ⟨hwrite, hopen⟩ := h
  rw [FileSystemSandboxPolicy.metadataWriteDenial_eq_none_iff hkind] at hopen
  obtain ⟨hcwd, hplace⟩ := not_isOpaque_of_write hkind hwrite
  rintro (hdrive | ⟨_, hnone⟩ | ⟨found, hfound, hclosed, _⟩)
  · rw [hplace] at hdrive
    cases hdrive
  · obtain ⟨entry, hentry⟩ :=
      (resolveAccess_eq_iff_deepest hkind hcwd hplace (by decide)).mp hwrite
    exact hnone entry hentry
  · rw [hopen found hfound] at hclosed
    cases hclosed

include hconcrete

/-- The deepest entry for a path that a writable entry reaches is writable. -/
theorem Reaches.resolveAccess_eq_write (h : Reaches policy fs env cwd root path)
    (hpath : isOpaque path = false) :
    policy.resolveAccess path (localContext env cwd) = .write := by
  obtain ⟨hcwd, hroot⟩ := not_isOpaque_of_write hkind h.decides
  have hresolved := resolvedEntriesWithCwd_eq fs env hconcrete hcwd
  obtain ⟨deepest, access, hdeepest⟩ :=
    Deepest.exists_of_covers (hresolved ▸ h.mem) h.above
  -- the entry that decides for the path decides at its own path too
  have hbelow : root <+: deepest := hdeepest.covers_root (hresolved ▸ h.mem) h.above
  have hself := hdeepest.between (List.prefix_refl deepest) hdeepest.covers
  have hwrite : access = .write := by
    by_contra haccess
    have hdecides : policy.resolveAccess deepest (localContext env cwd) = .write := by
      grind [IsOpen, cases Deepest, cases Reaches]
    obtain ⟨other, hother⟩ := (resolveAccess_eq_iff_deepest hkind hcwd
      (isOpaque_of_isPrefix hdeepest.covers hpath) (by decide)).mp hdecides
    exact haccess (hother.unique hself).2
  exact (resolveAccess_eq_iff_deepest hkind hcwd hpath (by decide)).mpr ⟨deepest, hwrite ▸ hdeepest⟩

/-- A metadata directory around a path that a writable entry reaches is reopened, or belongs to
a writable entry strictly below. -/
theorem Reaches.reopens_or_below (h : Reaches policy fs env cwd root path)
    (hpath : isOpaque path = false) {found : AbsolutePathBuf × String}
    (hfound : firstProtected (policy.resolvedEntries (localContext env cwd)) path = some found) :
    reopens (policy.resolvedEntries (localContext env cwd)) path found.1 = true
      ∨ root.length + 1 < found.1.length := by
  have hcwd := (not_isOpaque_of_write hkind h.decides).1
  have hmem : (root, .write) ∈ policy.resolvedEntries (localContext env cwd) :=
    resolvedEntriesWithCwd_eq fs env hconcrete hcwd ▸ h.mem
  obtain ⟨inner, _, hname, hjoin, hbelow⟩ := of_firstProtected_eq_some hpath hfound
  have hlength : found.1.length = inner.length + 1 := by rw [hjoin]; simp
  rcases Nat.lt_trichotomy inner.length root.length with hlt | heq | hgt
  · -- the root lies inside the directory
    have hinside : found.1 <+: root :=
      List.prefix_of_prefix_length_le hbelow h.above (by omega)
    exact Or.inl ((reopens_iff hpath).mpr ⟨root, hmem, hinside, h.above⟩)
  · -- the directory is right below the root, and open
    have hinner : inner = root :=
      (List.prefix_of_prefix_length_le ((List.prefix_append inner [found.2]).trans
        (hjoin ▸ hbelow)) h.above heq.le).eq_of_length heq
    have hopen := (h.names found.2 hname (hinner ▸ hjoin ▸ hbelow)).2
    rw [← hinner, ← hjoin, FileSystemSandboxPolicy.metadataWriteDenial_eq_none_iff hkind] at hopen
    have hreopens := hopen found
      (firstProtected_between hpath hfound (List.prefix_refl found.1) hbelow)
    obtain ⟨inside, hinside, habove, hin⟩ :=
      (reopens_iff (isOpaque_of_isPrefix hbelow hpath)).mp hreopens
    exact Or.inl ((reopens_iff hpath).mpr ⟨inside, hinside, habove, hin.trans hbelow⟩)
  · exact Or.inr (by omega)

/-- A writable entry that overlooks nothing reaches only what the policy lets be written. -/
theorem Reaches.isOpen (h : Reaches policy fs env cwd root path)
    (hno : ¬ Overlooked policy env cwd root path) :
    IsOpen policy env cwd (resolveCandidatePath path) := by
  have hcwd := (not_isOpaque_of_write hkind h.decides).1
  have hplace : isOpaque (resolveCandidatePath path) = false := by grind [Overlooked]
  rw [IsOpen, FileSystemSandboxPolicy.metadataWriteDenial_eq_none_iff hkind]
  rcases eq_or_ne (resolveCandidatePath path) path with hsame | hup
  · have hpath : isOpaque path = false := hsame ▸ hplace
    rw [hsame]
    refine ⟨h.resolveAccess_eq_write hkind hconcrete hpath, fun found hfound => ?_⟩
    rcases h.reopens_or_below hkind hconcrete hpath hfound with hreopens | hbelow
    · exact hreopens
    · by_contra hclosed
      refine hno (Or.inr (Or.inr ⟨found, ?_, ?_, fun _ => hbelow⟩))
      · rw [hsame]
        exact hfound
      · rw [hsame]
        simpa using hclosed
  · -- nothing that the root has checked is about the place
    constructor
    · by_contra hdenied
      refine hno (Or.inr (Or.inl ⟨hup, fun entry hentry => hdenied ?_⟩))
      exact (resolveAccess_eq_iff_deepest hkind hcwd hplace (by decide)).mpr ⟨entry, hentry⟩
    · intro found hfound
      by_contra hclosed
      exact hno (Or.inr (Or.inr ⟨found, hfound, by simpa using hclosed, fun h => absurd h hup⟩))

omit hkind hconcrete

/-- **Writable roots.** The writable roots of a policy grant only what the policy grants for a
path, exactly when no writable entry that reaches the path overlooks something about the place
that it leads to. -/
theorem writableRoots_sound_iff_not_overlooked (policy : LocalPolicy) (fs : FileSystem)
    (env : LocalEnvironment) (cwd : AbsolutePathBuf) (path : NativePath)
    (hkind : policy.kind = .restricted)
    (hconcrete : ∀ entry ∈ policy.entries, entry.path.IsConcrete) :
    (policy.hasFullDiskWriteAccess = false →
      (∃ writable ∈ policy.getWritableRootsWithCwd fs env cwd,
        writable.isPathWritable path = true) →
      policy.canWriteLocalPathWithCwd env path cwd = true)
    ↔ (policy.hasFullDiskWriteAccess = false →
      ∀ root, Reaches policy fs env cwd root path → ¬ Overlooked policy env cwd root path) := by
  refine forall_congr' fun hdisk => ?_
  rw [accepts_iff_reaches hkind hconcrete hdisk, FileSystemSandboxPolicy.canWriteLocalPathWithCwd,
    canWriteAbsolutePath_iff_isOpen hdisk]
  constructor
  · intro hsound root hreaches
    exact not_overlooked_of_isOpen hkind (hsound ⟨root, hreaches⟩)
  · rintro hnone ⟨root, hreaches⟩
    exact hreaches.isOpen hkind hconcrete (hnone root hreaches)

/-- A project, writable. -/
def projectPolicy : LocalPolicy :=
  .restricted [⟨.path ["a"], .write, false⟩]

theorem writableRoots_sound_project :
    ∃ writable ∈ projectPolicy.getWritableRootsWithCwd (fun _ => none) ⟨none, []⟩ ["a"],
      writable.isPathWritable ["a", "x", "..", "f"] = true
        ∧ projectPolicy.canWriteLocalPathWithCwd ⟨none, []⟩ ["a", "x", "..", "f"] ["a"] = true := by
  have haccepts : ∃ writable ∈ projectPolicy.getWritableRootsWithCwd (fun _ => none) ⟨none, []⟩
      ["a"], writable.isPathWritable ["a", "x", "..", "f"] = true := by decide +kernel
  have hcan := (writableRoots_sound_iff_not_overlooked projectPolicy (fun _ => none) ⟨none, []⟩
    ["a"] ["a", "x", "..", "f"] rfl (by simp [projectPolicy, FileSystemSandboxPolicy.restricted,
      FileSystemPath.IsConcrete])).mpr (by
        rintro _ root _ (hdrive | ⟨_, hnone⟩ | ⟨found, hfound, _⟩)
        · exact absurd hdrive (by decide)
        · have hwrite : projectPolicy.resolveAccess ["a", "f"] (localContext ⟨none, []⟩ ["a"])
              = .write := by decide +kernel
          obtain ⟨entry, hentry⟩ :=
            (resolveAccess_eq_iff_deepest rfl rfl rfl (by decide)).mp hwrite
          exact hnone entry hentry
        · have hnone : firstProtected (projectPolicy.resolvedEntries
              (localContext ⟨none, []⟩ ["a"])) ["a", "f"] = none := by
            decide +kernel
          cases hfound) (by decide +kernel) haccepts
  obtain ⟨writable, hmem, hwritable⟩ := haccepts
  exact ⟨writable, hmem, hwritable, hcan⟩

/-- A project with a writable directory of its own inside. -/
def nestedPolicy : LocalPolicy :=
  .restricted [⟨.path ["a"], .write, false⟩, ⟨.path ["a", "b"], .write, false⟩]

/-- The root of the project accepts the `.git` of the inner directory, which the policy denies. -/
theorem writableRoots_accept_nestedGit :
    nestedPolicy.hasFullDiskWriteAccess = false
      ∧ (∃ writable ∈ nestedPolicy.getWritableRootsWithCwd (fun _ => none) ⟨none, []⟩ ["a"],
        writable.isPathWritable ["a", "b", ".git", "f"] = true)
      ∧ nestedPolicy.canWriteLocalPathWithCwd ⟨none, []⟩ ["a", "b", ".git", "f"] ["a"] = false := by
  decide +kernel

/-- A `..` leads out of the project. -/
example : (∃ writable ∈ projectPolicy.getWritableRootsWithCwd (fun _ => none) ⟨none, []⟩ ["a"],
      writable.isPathWritable ["a", "..", "etc", "f"] = true)
    ∧ projectPolicy.canWriteLocalPathWithCwd ⟨none, []⟩ ["a", "..", "etc", "f"] ["a"] = false := by
  decide +kernel

end CodexRouter.Permissions
