import CodexRouter.Permissions.LocalPath

set_option autoImplicit false

/-! # Policies on local paths

What `resolveAccess` and `canWritePath` come down to on a POSIX host, in terms of components: the
longest entry that is a prefix of the path decides, and the metadata rule is about the components
that follow writable roots.
-/

namespace CodexRouter.Permissions

open AbsolutePathBuf

abbrev LocalPolicy := FileSystemSandboxPolicy AbsolutePathBuf

abbrev ResolvedEntries := List (AbsolutePathBuf × FileSystemAccessMode)

/-! ## The deepest entry -/

/-- The entry at `root` with `access` decides for `path`. -/
structure Deepest (entries : ResolvedEntries) (path root : AbsolutePathBuf)
    (access : FileSystemAccessMode) : Prop where
  mem : (root, access) ∈ entries
  covers : root <+: path
  deepest : ∀ entry ∈ entries, entry.1 <+: path → entry.1.length ≤ root.length
  strongest : ∀ other, (root, other) ∈ entries → other ≤ access

namespace Deepest

variable {entries : ResolvedEntries} {path root : AbsolutePathBuf} {access : FileSystemAccessMode}

/-- An entry above the path lies above the one that decides. -/
theorem covers_root (h : Deepest entries path root access)
    {entry : AbsolutePathBuf × FileSystemAccessMode} (hentry : entry ∈ entries)
    (hpath : entry.1 <+: path) : entry.1 <+: root :=
  List.prefix_of_prefix_length_le hpath h.covers (h.deepest entry hentry hpath)

/-- The entry that decides for a path decides for every path between them. -/
theorem between (h : Deepest entries path root access) {middle : AbsolutePathBuf}
    (hroot : root <+: middle) (hpath : middle <+: path) : Deepest entries middle root access where
  mem := h.mem
  covers := hroot
  deepest := fun entry hentry hmiddle => h.deepest entry hentry (hmiddle.trans hpath)
  strongest := h.strongest

theorem unique (h : Deepest entries path root access) {root' : AbsolutePathBuf}
    {access' : FileSystemAccessMode} (h' : Deepest entries path root' access') :
    root' = root ∧ access' = access := by
  have hroot : root' <+: root := h.covers_root h'.mem h'.covers
  have hlength : root'.length = root.length :=
    le_antisymm hroot.length_le (h'.covers_root h.mem h.covers).length_le
  obtain rfl := hroot.eq_of_length hlength
  exact ⟨rfl, le_antisymm (h.strongest _ h'.mem) (h'.strongest _ h.mem)⟩

/-- Some entry decides for a path that some entry covers. -/
theorem exists_of_covers {entry : AbsolutePathBuf × FileSystemAccessMode} (hentry : entry ∈ entries)
    (hcovers : entry.1 <+: path) : ∃ root access, Deepest entries path root access := by
  let key : AbsolutePathBuf × FileSystemAccessMode → ℕ ×ₗ FileSystemAccessMode := fun entry =>
    toLex (entry.1.length, entry.2)
  have hmem : entry ∈ entries.filter fun entry => entry.1.isPrefixOf path :=
    List.mem_filter.mpr ⟨hentry, List.isPrefixOf_iff_prefix.mpr hcovers⟩
  have hsome : (entries.filter fun entry => entry.1.isPrefixOf path).argmax key ≠ none := fun h =>
    List.ne_nil_of_mem hmem (List.argmax_eq_none.mp h)
  obtain ⟨⟨root, access⟩, hbest⟩ := Option.ne_none_iff_exists'.mp hsome
  obtain ⟨hroot, hroot'⟩ := List.mem_filter.mp (List.argmax_mem hbest)
  have hroot' := List.isPrefixOf_iff_prefix.mp hroot'
  have hmax : ∀ other ∈ entries, other.1 <+: path →
      other.1.length < root.length ∨ other.1.length = root.length ∧ other.2 ≤ access := by
    intro other hother hpath
    have hle : key other ≤ key (root, access) := List.le_of_mem_argmax
      (List.mem_filter.mpr ⟨hother, List.isPrefixOf_iff_prefix.mpr hpath⟩) hbest
    exact Prod.Lex.toLex_le_toLex.mp hle
  refine ⟨root, access, hroot, hroot', fun other hother hpath => ?_, fun other hother => ?_⟩
  · grind
  · grind

end Deepest

section

variable {policy : LocalPolicy} {path : AbsolutePathBuf}
  {context : FileSystemSandboxPolicyContext AbsolutePathBuf}

theorem comparable_local (path : AbsolutePathBuf) : comparable path = true := by
  show ((if isOpaque path then none else some path.length).isSome || isOpaque path) = true
  cases isOpaque path <;> rfl

/-- The entries that cover a local path. -/
theorem mem_coveringEntries (policy : LocalPolicy) (hcwd : isOpaque context.cwd = false)
    (hpath : isOpaque path = false) :
    ∃ covering, policy.coveringEntries path context = some covering
      ∧ ∀ root access depth, (root, access, depth) ∈ covering
        ↔ (root, access) ∈ policy.resolvedEntries context ∧ root <+: path
          ∧ depth = root.length := by
  have hcovering : policy.coveringEntries path context
      = some (((policy.resolvedEntries context).filterMap withDepth).filter
        fun entry => PathUri.startsWith path entry.1) := by
    have hall : (policy.resolvedEntries context).all
        (fun entry => comparable entry.1) = true :=
      List.all_eq_true.mpr fun entry _ => comparable_local entry.1
    show (if some PathConvention.posix ≠ some .posix ∨ PathUri.lexicalDepth path = none
      ∨ PathUri.lexicalDepth context.cwd = none then none else _) = _
    rw [uri_lexicalDepth hpath, uri_lexicalDepth hcwd, if_neg (by simp), lexicalEntries_eq,
      if_pos hall]
    rfl
  refine ⟨_, hcovering, fun root access depth => ?_⟩
  simp only [List.mem_filter, List.mem_filterMap, uri_startsWith, startsWith_iff hpath, withDepth,
    Option.map_eq_some_iff, Prod.mk.injEq]
  constructor
  · rintro ⟨⟨⟨root', access'⟩, hmem, depth', hdepth, rfl, rfl, rfl⟩, hcovers⟩
    rw [uri_lexicalDepth (isOpaque_of_isPrefix hcovers hpath)] at hdepth
    exact ⟨hmem, hcovers, (Option.some.inj hdepth).symm⟩
  · rintro ⟨hmem, hcovers, rfl⟩
    exact ⟨⟨(root, access), hmem, root.length,
      uri_lexicalDepth (isOpaque_of_isPrefix hcovers hpath), rfl, rfl, rfl⟩, hcovers⟩

theorem specificity_le_iff {root root' : AbsolutePathBuf} {access access' : FileSystemAccessMode}
    {depth depth' : Nat} :
    specificity (root', access', depth') ≤ specificity (root, access, depth)
      ↔ depth' < depth ∨ depth' = depth ∧ access' ≤ access :=
  Prod.Lex.toLex_le_toLex

/-- The deepest entry decides in the sense of the policy. -/
theorem decides_iff_deepest (hcwd : isOpaque context.cwd = false) (hpath : isOpaque path = false)
    {access : FileSystemAccessMode} :
    (∃ covering ∈ policy.coveringEntries path context, Decides covering access)
      ↔ ∃ root, Deepest (policy.resolvedEntries context) path root access := by
  obtain ⟨covering, hcovering, hmem⟩ := mem_coveringEntries policy hcwd hpath
  rw [hcovering]
  simp only [Option.mem_some_iff, exists_eq_left']
  constructor
  · rintro ⟨⟨root, access, depth⟩, hentry, rfl, hmax⟩
    obtain ⟨hroot, hcovers, rfl⟩ := (hmem root access depth).mp hentry
    have hle := fun other : AbsolutePathBuf × FileSystemAccessMode =>
      fun hother : other ∈ policy.resolvedEntries context =>
      fun hpath : other.1 <+: path =>
        specificity_le_iff.mp (hmax _ ((hmem other.1 other.2 _).mpr ⟨hother, hpath, rfl⟩))
    refine ⟨root, hroot, hcovers, fun other hother hpath => ?_, fun other hother => ?_⟩
    · grind
    · grind
  · rintro ⟨root, h⟩
    refine ⟨(root, access, root.length), (hmem _ _ _).mpr ⟨h.mem, h.covers, rfl⟩, rfl, ?_⟩
    rintro ⟨other, access', depth'⟩ hother
    obtain ⟨hmem', hcovers', rfl⟩ := (hmem _ _ _).mp hother
    have hle := h.deepest _ hmem' hcovers'
    rw [specificity_le_iff]
    rcases Nat.lt_or_eq_of_le hle with hlt | heq
    · exact Or.inl hlt
    · have hroot : other = root := (h.covers_root hmem' hcovers').eq_of_length heq
      exact Or.inr ⟨heq, h.strongest access' (hroot ▸ hmem')⟩

/-- What a restricted policy grants on a local path, its deepest entry grants. -/
theorem resolveAccess_eq_iff_deepest (hkind : policy.kind = .restricted)
    (hcwd : isOpaque context.cwd = false) (hpath : isOpaque path = false)
    {access : FileSystemAccessMode} (haccess : access ≠ .deny) :
    policy.resolveAccess path context = access
      ↔ ∃ root, Deepest (policy.resolvedEntries context) path root access := by
  rw [FileSystemSandboxPolicy.resolveAccess_eq_iff hkind haccess, decides_iff_deepest hcwd hpath]

/-- Nothing is granted for an opaque path, or from an opaque working directory. -/
theorem resolveAccess_of_isOpaque (hkind : policy.kind = .restricted)
    (h : isOpaque context.cwd = true ∨ isOpaque path = true) :
    policy.resolveAccess path context = .deny := by
  have hnone : policy.coveringEntries path context = none := by
    show (if some PathConvention.posix ≠ some .posix ∨ PathUri.lexicalDepth path = none
      ∨ PathUri.lexicalDepth context.cwd = none then none else _) = _
    refine if_pos (Or.inr ?_)
    rcases h with h | h
    · exact Or.inr (if_pos h)
    · exact Or.inl (if_pos h)
  rw [FileSystemSandboxPolicy.resolveAccess_restricted hkind, hnone]
  rfl

end

/-! ## Concrete entries -/

/-- The file system root or a concrete path. -/
def FileSystemPath.IsConcrete {P : Type} : FileSystemPath P → Prop
  | .path _ | .special .root => True
  | _ => False

theorem FileSystemPath.IsConcrete.cases {P : Type} {path : FileSystemPath P}
    (h : path.IsConcrete) : (∃ absolute, path = .path absolute) ∨ path = .special .root := by
  cases path with
  | path absolute => exact Or.inl ⟨absolute, rfl⟩
  | globPattern pattern => cases h
  | special value =>
    cases value with
    | root => exact Or.inr rfl
    | _ => cases h

def FileSystemPath.concretePath : FileSystemPath AbsolutePathBuf → AbsolutePathBuf
  | .path absolute => absolute
  | _ => []

def concreteEntries (entries : List (FileSystemSandboxEntry AbsolutePathBuf)) :
    ResolvedEntries :=
  entries.map fun entry => (entry.path.concretePath, entry.access)

theorem mem_concreteEntries {entries : List (FileSystemSandboxEntry AbsolutePathBuf)}
    {root : AbsolutePathBuf} {access : FileSystemAccessMode} :
    (root, access) ∈ concreteEntries entries
      ↔ ∃ entry ∈ entries, entry.path.concretePath = root ∧ entry.access = access := by
  simp [concreteEntries]

section

variable {context : FileSystemSandboxPolicyContext AbsolutePathBuf}
  (hcwd : isOpaque context.cwd = false)

include hcwd

theorem fileSystemRoot_local : fileSystemRoot context = some [] := by
  show (PathUri.lexicalDepth context.cwd).map
    (fun _ => if isOpaque context.cwd then context.cwd else []) = _
  rw [uri_lexicalDepth hcwd, hcwd]
  rfl

/-- A concrete entry resolves to its path. -/
theorem resolvedEntry_concrete {entry : FileSystemSandboxEntry AbsolutePathBuf}
    (h : entry.path.IsConcrete) :
    resolvedEntry context entry = [(entry.path.concretePath, entry.access)] := by
  obtain ⟨path, access, skips⟩ := entry
  rcases h.cases with ⟨_, rfl⟩ | rfl
  · rfl
  · simp only [resolvedEntry, entryPaths, fileSystemRoot_local hcwd]
    rfl

theorem resolvedEntries_concrete {policy : LocalPolicy}
    (h : ∀ entry ∈ policy.entries, entry.path.IsConcrete) :
    policy.resolvedEntries context = concreteEntries policy.entries := by
  rw [FileSystemSandboxPolicy.resolvedEntries, List.flatMap_congr fun entry hentry =>
    resolvedEntry_concrete hcwd (h entry hentry)]
  exact List.flatMap_pure_eq_map _ _

end

/-! ## The metadata rule -/

section

variable {entries : ResolvedEntries} {path : AbsolutePathBuf} {found : AbsolutePathBuf × String}

section

variable (hpath : isOpaque path = false)

include hpath

/-- What the metadata rule stops at is a metadata directory of a writable root. -/
theorem of_firstProtected_eq_some (h : firstProtected entries path = some found) :
    ∃ root, (root, .write) ∈ entries ∧ found.2 ∈ protectedMetadataPathNames
      ∧ found.1 = root ++ [found.2] ∧ found.1 <+: path := by
  obtain ⟨⟨root, access⟩, hroot, hfound⟩ := List.exists_of_findSome?_eq_some h
  obtain ⟨hmem, hwrite⟩ := List.mem_filter.mp hroot
  have hwrite : access = .write := by simpa using hwrite
  obtain ⟨hname, hjoin, hbelow⟩ := (protectedMetadata_eq_some_iff hpath).mp hfound
  exact ⟨root, hwrite ▸ hmem, hname, hjoin, hbelow⟩

/-- The rule stops at a directory for another path if it is around that path and every metadata
directory of a writable root around that path is around the first one. -/
theorem firstProtected_of_around {other : AbsolutePathBuf} (hother : isOpaque other = false)
    (h : firstProtected entries path = some found) (hfound : found.1 <+: other)
    (haround : ∀ root name, (root, .write) ∈ entries → root ++ [name] <+: other →
      root ++ [name] <+: path) : firstProtected entries other = some found := by
  obtain ⟨before, entry, after, hsplit, hentry, hbefore⟩ := List.findSome?_eq_some_iff.mp h
  refine List.findSome?_eq_some_iff.mpr ⟨before, entry, after, hsplit, ?_, fun root hroot => ?_⟩
  · obtain ⟨hname, hjoin, _⟩ := (protectedMetadata_eq_some_iff hpath).mp hentry
    exact (protectedMetadata_eq_some_iff hother).mpr ⟨hname, hjoin, hfound⟩
  · -- an earlier root with a directory around `other` would have stopped the rule before
    rw [Option.eq_none_iff_forall_ne_some]
    intro found' hfound'
    obtain ⟨hname, hjoin, hbelow⟩ := (protectedMetadata_eq_some_iff hother).mp hfound'
    have hmem : root ∈ entries.filter fun entry => entry.2.canWrite :=
      hsplit ▸ List.mem_append_left _ hroot
    obtain ⟨hmem, hwrite⟩ := List.mem_filter.mp hmem
    have hwrite : root.2 = .write := by simpa using hwrite
    have hearlier := (protectedMetadata_eq_some_iff hpath).mpr
      ⟨hname, hjoin, hjoin ▸ haround root.1 found'.2 (hwrite ▸ hmem) (hjoin ▸ hbelow)⟩
    rw [hbefore root hroot] at hearlier
    cases hearlier

/-- The rule stops at the same directory for every path between it and the path. -/
theorem firstProtected_between (h : firstProtected entries path = some found)
    {middle : AbsolutePathBuf} (hfound : found.1 <+: middle) (hmiddle : middle <+: path) :
    firstProtected entries middle = some found :=
  firstProtected_of_around hpath (isOpaque_of_isPrefix hmiddle hpath) h hfound
    fun _ _ _ hbelow => hbelow.trans hmiddle

/-- It stops there for a longer path too if no writable root lies in between. -/
theorem firstProtected_below {above : AbsolutePathBuf}
    (h : firstProtected entries above = some found) (habove : above <+: path)
    (hnone : ∀ root, (root, .write) ∈ entries → root <+: path → root.length < above.length) :
    firstProtected entries path = some found := by
  have hdrive := isOpaque_of_isPrefix habove hpath
  obtain ⟨_, _, _, _, hbelow⟩ := of_firstProtected_eq_some hdrive h
  refine firstProtected_of_around hdrive hpath h (hbelow.trans habove) fun root _ hroot hname => ?_
  have hlt := hnone root hroot ((List.prefix_append root _).trans hname)
  exact List.prefix_of_prefix_length_le hname habove (by simpa using hlt)

theorem reopens_iff {protectedPath : AbsolutePathBuf} :
    reopens entries path protectedPath = true
      ↔ ∃ root, (root, .write) ∈ entries ∧ protectedPath <+: root ∧ root <+: path := by
  simp only [reopens, List.any_eq_true, Bool.and_eq_true, uri_startsWith, startsWith_iff hpath,
    FileSystemAccessMode.canWrite_iff]
  constructor
  · rintro ⟨⟨root, access⟩, hmem, ⟨rfl, hroot⟩, hbelow⟩
    exact ⟨root, hmem, prefix_of_startsWith hbelow, hroot⟩
  · rintro ⟨root, hmem, hbelow, hroot⟩
    exact ⟨(root, .write), hmem, ⟨rfl, hroot⟩,
      (startsWith_iff (isOpaque_of_isPrefix hroot hpath)).mpr hbelow⟩

end

end

end CodexRouter.Permissions
