import CodexRouter.Permissions.LocalPolicy

set_option autoImplicit false

/-! # Additional permissions

A command asks for additional permissions and a person grants some. What is then in force is the
intersection of the two profiles (`intersectPermissionProfilesWithContext`): the granted entries
that the request covers at their own path, and the `deny` entries of both sides that constrain
one of them.
-/

namespace CodexRouter.Permissions

/-! ## Profiles -/

structure NetworkPermissions where
  enabled : Option Bool
deriving DecidableEq

structure FileSystemPermissions (P : Type) where
  entries : List (FileSystemSandboxEntry P)
  globScanMaxDepth : Option Nat

structure AdditionalPermissionProfile (P : Type) where
  network : Option NetworkPermissions
  fileSystem : Option (FileSystemPermissions P)

variable {P : Type}

/-- What is done with a glob pattern: it is made absolute, it has a directory in front of its
first wildcard, and it denies a read (because it matches or cannot be used). -/
structure Globs (P : Type) where
  materialize : FileSystemSandboxPolicyContext P → String → Option String
  staticDirectory : FileSystemSandboxPolicyContext P → String → Option P
  deniesRead : FileSystemSandboxPolicyContext P → String → P → Bool

/-- Append the entries that are not there yet. -/
def pushNew [DecidableEq P] (output entries : List (FileSystemSandboxEntry P)) :
    List (FileSystemSandboxEntry P) :=
  entries.foldl (fun output entry => if entry ∈ output then output else output ++ [entry]) output

theorem mem_pushNew [DecidableEq P] {output entries : List (FileSystemSandboxEntry P)}
    {entry : FileSystemSandboxEntry P} :
    entry ∈ pushNew output entries ↔ entry ∈ output ∨ entry ∈ entries := by
  induction entries generalizing output with
  | nil => simp [pushNew]
  | cons first rest ih =>
    have hcons : pushNew output (first :: rest)
        = pushNew (if first ∈ output then output else output ++ [first]) rest := rfl
    rw [hcons, ih]
    by_cases hfirst : first ∈ output
    · grind
    · rw [if_neg hfirst, List.mem_append, List.mem_singleton, List.mem_cons, or_assoc]

/-! ## Materialized entries -/

section

open PathUri

variable [PathUri P] (globs : Globs P) (context : FileSystemSandboxPolicyContext P)

def resolvePermissionPath : FileSystemPath P → Option P
  | .path path => some path
  | .globPattern _ => none
  | .special .root => fileSystemRoot context
  | .special (.projectRoots subpath) => context.workspaceRoots.head?.bind fun root =>
    match subpath with
    | some subpath => join root subpath
    | none => some root
  | .special .tmpdir => context.temporaryDirectories.bind List.head?
  | .special .slashTmp =>
    if inferPathConvention context.cwd = some .posix then join context.cwd "/tmp" else none
  | .special .minimal | .special (.unknown _ _) => none

def materializedPathEntry (entry : FileSystemSandboxEntry P) (path : P) :
    FileSystemSandboxEntry P :=
  { entry with path := .path path }

/-- What one entry becomes. A `deny` entry that cannot be resolved fails the whole list. -/
def materializeEntry (entry : FileSystemSandboxEntry P) :
    Option (List (FileSystemSandboxEntry P)) :=
  match entry.path with
  | .special (.projectRoots subpath) =>
    let paths := context.workspaceRoots.map fun root =>
      resolvePermissionPath { context with workspaceRoots := [root] }
        (.special (.projectRoots subpath))
    let resolved := (paths.filterMap id).map (materializedPathEntry entry)
    if entry.access = .deny && (paths.any (·.isNone) || resolved.isEmpty) then none
    else some resolved
  | .special .tmpdir =>
    match context.temporaryDirectories with
    | none => if entry.access = .deny then none else some [entry]
    | some directories => some (directories.map (materializedPathEntry entry))
  | .special .root => (resolvePermissionPath context entry.path).map fun _ => [entry]
  | .globPattern pattern =>
    match globs.materialize context pattern with
    | none => if entry.access = .deny then none else some []
    | some pattern => some [{ entry with path := .globPattern pattern }]
  | .path _ | .special .minimal | .special .slashTmp | .special (.unknown _ _) => some [entry]

def materializeContextDependentEntries (entries : List (FileSystemSandboxEntry P)) :
    Option (List (FileSystemSandboxEntry P)) :=
  (entries.mapM (materializeEntry globs context)).map List.flatten

/-! ## Read denials -/

/-- The concrete paths that a policy denies, the file system root apart. -/
def deniedRoots (policy : FileSystemSandboxPolicy P)
    (context : FileSystemSandboxPolicyContext P) : List P :=
  (((policy.resolvedEntries context).filter fun entry => entry.2 = .deny).filter fun entry =>
    !(fileSystemRoot context).any fun root =>
      startsWith entry.1 root && startsWith root entry.1).map Prod.fst

/-- An entry denies the read by a glob. -/
def globDeniesRead (path : P) (entry : FileSystemSandboxEntry P) : Bool :=
  entry.access = .deny && match entry.path with
    | .globPattern pattern => globs.deniesRead context pattern path
    | _ => false

/-- `ReadDenyMatcher::from_context` and its `is_read_denied_uri`: everything at or below a denied
path is denied, whatever entries lie in between. -/
def isReadDenied (policy : FileSystemSandboxPolicy P)
    (context : FileSystemSandboxPolicyContext P) (path : P) : Bool :=
  (policy.entries.any fun entry => entry.access = .deny) &&
    match inferPathConvention context.cwd with
    | none => true
    | some convention =>
      if inferPathConvention path ≠ some convention ∨ lexicalDepth path = none
          ∨ lexicalDepth context.cwd = none then true
      else (deniedRoots policy context).any (startsWith path)
        || policy.entries.any (globDeniesRead globs context path)

/-! ## The intersection -/

def accessCovers (requested granted : FileSystemAccessMode) : Bool :=
  match granted with
  | .read => requested.canRead
  | .write => requested.canWrite
  | .deny => false

variable [DecidableEq P]

def pathsOverlap (left right : P) : Bool :=
  left = right || lexicalDepth left = none || lexicalDepth right = none
    || startsWith left right || startsWith right left

/-- `granted_file_system_entry_within_request`: the request covers the entry at its own path. -/
def withinRequest (requested materialized : List (FileSystemSandboxEntry P))
    (context : FileSystemSandboxPolicyContext P) (granted : FileSystemSandboxEntry P) : Bool :=
  if !granted.access.canRead || (granted.path = .special .slashTmp
      && inferPathConvention context.cwd ≠ some .posix) then false
  else if inferPathConvention context.cwd = some .windows && granted.path = .special .root
      && !requested.any (fun entry => entry.path = .special .root
        && accessCovers entry.access granted.access) then false
  else match resolvePermissionPath context granted.path with
    | some path =>
      if inferPathConvention path ≠ inferPathConvention context.cwd
          || isReadDenied globs (.restricted materialized) context path then false
      else accessCovers
        ((FileSystemSandboxPolicy.restricted materialized).resolveAccess path context)
        granted.access
    | none => requested.any fun entry =>
      accessCovers entry.access granted.access && entry.path = granted.path

/-- `deny_entry_constrains_accepted_grant`. -/
def denyEntryConstrains (accepted : List (FileSystemSandboxEntry P))
    (deny : FileSystemSandboxEntry P) : Bool :=
  (accepted.filter fun entry => entry.access.canRead).any fun entry =>
    entry.path = .special .root ||
      match resolvePermissionPath context entry.path with
      | none => true
      | some grantPath =>
        match deny.path with
        | .globPattern pattern =>
          (globs.staticDirectory context pattern).all (pathsOverlap · grantPath)
        | path => (resolvePermissionPath context path).all (pathsOverlap · grantPath)

/-- The `deny` entries that `retain_constraining_deny_entries` retains. -/
def constrainingDenyEntries (accepted source : List (FileSystemSandboxEntry P)) :
    List (FileSystemSandboxEntry P) :=
  (source.filter fun entry => entry.access = .deny).filter
    (denyEntryConstrains globs context accepted)

/-- The scan depth of a list with `deny` globs: `some none` is unbounded. -/
def effectiveGlobScanDepth (entries : List (FileSystemSandboxEntry P)) (depth : Option Nat) :
    Option (Option Nat) :=
  if entries.any fun entry => entry.access = .deny
      && match entry.path with
        | .globPattern _ => true
        | _ => false
  then some depth else none

def mergeGlobScanMaxDepth (leftEntries : List (FileSystemSandboxEntry P)) (leftDepth : Option Nat)
    (rightEntries : List (FileSystemSandboxEntry P)) (rightDepth : Option Nat) : Option Nat :=
  match effectiveGlobScanDepth leftEntries leftDepth,
    effectiveGlobScanDepth rightEntries rightDepth with
  | some none, _ | _, some none => none
  | some (some left), some (some right) => some (max left right)
  | some (some depth), none | none, some (some depth) => some depth
  | none, none => none

def intersectFileSystemPermissions (requested granted : FileSystemPermissions P) :
    Option (FileSystemPermissions P) :=
  match materializeContextDependentEntries globs context requested.entries,
    materializeContextDependentEntries globs context granted.entries with
  | some requestedEntries, some grantedEntries =>
    let accepted := pushNew [] (grantedEntries.filter
      (withinRequest globs requested.entries requestedEntries context))
    let requestedDenies := constrainingDenyEntries globs context accepted requestedEntries
    let grantedDenies := constrainingDenyEntries globs context accepted grantedEntries
    some
      { entries := pushNew (pushNew accepted requestedDenies) grantedDenies
        globScanMaxDepth := (mergeGlobScanMaxDepth requestedDenies requested.globScanMaxDepth
          grantedDenies granted.globScanMaxDepth).filter (· ≠ 0) }
  | _, _ => none

def intersectPermissionProfilesWithContext (requested granted : AdditionalPermissionProfile P)
    (context : FileSystemSandboxPolicyContext P) : AdditionalPermissionProfile P :=
  { fileSystem := (requested.fileSystem.bind fun requestedFileSystem =>
      intersectFileSystemPermissions globs context requestedFileSystem
        (granted.fileSystem.getD ⟨[], none⟩)).filter fun fileSystem => !fileSystem.entries.isEmpty
    network :=
      match requested.network, granted.network with
      | some ⟨some true⟩, some ⟨some true⟩ => some ⟨some true⟩
      | _, _ => none }

end

/-! ## Concrete profiles on a POSIX host -/

section

open AbsolutePathBuf

abbrev LocalEntries := List (FileSystemSandboxEntry AbsolutePathBuf)

/-- Every entry is the file system root or a concrete path. -/
def IsConcrete (entries : LocalEntries) : Prop := ∀ entry ∈ entries, entry.path.IsConcrete

/-- A path is denied below a `deny` entry, the root apart. -/
def Denied (entries : ResolvedEntries) (path : AbsolutePathBuf) : Prop :=
  ∃ deny, (deny, .deny) ∈ entries ∧ deny ≠ [] ∧ deny <+: path

variable {globs : Globs AbsolutePathBuf} {context : FileSystemSandboxPolicyContext AbsolutePathBuf}
  {requested granted : LocalEntries} {path : AbsolutePathBuf}
  {entry : FileSystemSandboxEntry AbsolutePathBuf}

section

variable (hcwd : isOpaque context.cwd = false)

include hcwd

theorem resolvePermissionPath_concrete (h : entry.path.IsConcrete) :
    resolvePermissionPath context entry.path = some entry.path.concretePath := by
  obtain ⟨path, access, skips⟩ := entry
  rcases h.cases with ⟨_, rfl⟩ | rfl
  · rfl
  · exact fileSystemRoot_local hcwd

theorem materialize_concrete (h : IsConcrete requested) :
    materializeContextDependentEntries globs context requested = some requested := by
  have hentry : ∀ entry ∈ requested, materializeEntry globs context entry = some [entry] := by
    rintro ⟨path, access, skips⟩ hmem
    rcases (h _ hmem).cases with ⟨_, rfl⟩ | rfl
    · rfl
    · show (fileSystemRoot context).map _ = _
      rw [fileSystemRoot_local hcwd]
      rfl
  have hmap : requested.mapM (materializeEntry globs context)
      = some (requested.map fun entry => [entry]) := by
    clear h
    induction requested with
    | nil => rfl
    | cons first rest ih =>
      rw [List.mapM_cons, hentry first (List.mem_cons_self ..),
        ih fun entry hentry' => hentry entry (List.mem_cons_of_mem _ hentry')]
      rfl
  rw [materializeContextDependentEntries, hmap]
  simp [← List.flatMap_def]

/-- The denied paths above a path are those of the `deny` entries, the root apart. -/
theorem deniedRoots_any_iff {policy : LocalPolicy} (h : IsConcrete policy.entries)
    (hpath : isOpaque path = false) :
    (deniedRoots policy context).any (startsWith path) = true
      ↔ Denied (concreteEntries policy.entries) path := by
  simp only [deniedRoots, resolvedEntries_concrete hcwd h, fileSystemRoot_local hcwd,
    List.any_map, List.any_filter, List.any_eq_true, Option.any_some, Function.comp_apply,
    uri_startsWith, startsWith_iff hpath, Bool.and_eq_true, Bool.not_eq_true', decide_eq_true_eq]
  constructor
  · rintro ⟨⟨deny, access⟩, hdeny, rfl, hroot, hcovers⟩
    refine ⟨deny, hdeny, ?_, hcovers⟩
    rintro rfl
    cases hroot
  · rintro ⟨deny, hdeny, hroot, hcovers⟩
    refine ⟨(deny, .deny), hdeny, rfl, ?_, hcovers⟩
    have hbelow : startsWith [] deny = false := by
      grind [startsWith_iff, isOpaque_nil]
    rw [hbelow, Bool.and_false]

/-- A read is denied at or below a path that is denied, the root apart. -/
theorem isReadDenied_iff (h : IsConcrete requested) (hpath : isOpaque path = false) :
    isReadDenied globs (.restricted requested) context path = true
      ↔ Denied (concreteEntries requested) path := by
  have hroots : (deniedRoots (.restricted requested) context).any (PathUri.startsWith path) = true
      ↔ _ := deniedRoots_any_iff hcwd h hpath
  have hglobs : requested.any (globDeniesRead globs context path) = false := by
    refine List.any_eq_false.mpr fun entry hentry => ?_
    have hconcrete := h entry hentry
    cases hentry' : entry.path with
    | globPattern pattern =>
      rw [hentry'] at hconcrete
      cases hconcrete
    | _ => simp [globDeniesRead, hentry']
  have hmatch : isReadDenied globs (.restricted requested) context path
      = (requested.any (fun entry => entry.access = .deny)
        && (deniedRoots (.restricted requested) context).any (PathUri.startsWith path)) := by
    show (requested.any (fun entry => entry.access = .deny)
      && if some PathConvention.posix ≠ some .posix ∨ PathUri.lexicalDepth path = none
        ∨ PathUri.lexicalDepth context.cwd = none then true
      else _ || requested.any (globDeniesRead globs context path)) = _
    rw [uri_lexicalDepth hpath, uri_lexicalDepth hcwd, if_neg (by simp), hglobs, Bool.or_false]
  rw [hmatch, Bool.and_eq_true, hroots, List.any_eq_true]
  constructor
  · exact fun hdenied => hdenied.2
  · rintro ⟨deny, hdeny, hcovers⟩
    obtain ⟨entry, hentry, _, haccess⟩ := mem_concreteEntries.mp hdeny
    exact ⟨⟨entry, hentry, by simpa using haccess⟩, deny, hdeny, hcovers⟩

/-- The request covers an entry: it grants as much at the path of the entry, and denies nothing
above it. -/
theorem withinRequest_iff (hentry : entry.path.IsConcrete) :
    withinRequest globs requested requested context entry = true
      ↔ entry.access ≠ .deny
        ∧ isReadDenied globs (.restricted requested) context entry.path.concretePath = false
        ∧ accessCovers ((FileSystemSandboxPolicy.restricted requested).resolveAccess
          entry.path.concretePath context) entry.access = true := by
  have hposix : ∀ path : AbsolutePathBuf, PathUri.inferPathConvention path = some .posix :=
    fun _ => rfl
  unfold withinRequest
  rw [resolvePermissionPath_concrete hcwd hentry]
  simp [hposix, FileSystemAccessMode.canRead]

end

/-- The entries of a profile, none if it says nothing about the file system. -/
def AdditionalPermissionProfile.entries (profile : AdditionalPermissionProfile P) :
    List (FileSystemSandboxEntry P) :=
  (profile.fileSystem.map FileSystemPermissions.entries).getD []

/-- Dropping an empty list of permissions leaves the entries as they are. -/
theorem entries_filter_nonempty (fileSystem : Option (FileSystemPermissions P)) :
    ((fileSystem.filter fun fileSystem => !fileSystem.entries.isEmpty).map
      FileSystemPermissions.entries).getD []
      = (fileSystem.map FileSystemPermissions.entries).getD [] := by
  cases fileSystem with
  | none => rfl
  | some permissions =>
    cases hentries : permissions.entries with
    | nil => simp [Option.filter, hentries]
    | cons first rest => simp [Option.filter, hentries]

theorem denyEntryConstrains_congr {accepted accepted' : LocalEntries}
    (h : ∀ entry, entry ∈ accepted ↔ entry ∈ accepted') :
    denyEntryConstrains globs context accepted = denyEntryConstrains globs context accepted' := by
  funext deny
  rw [Bool.eq_iff_iff]
  simp only [denyEntryConstrains, List.any_eq_true, List.mem_filter, h]

/-- An empty request covers nothing. -/
theorem not_withinRequest_nil (hcwd : isOpaque context.cwd = false)
    (hentry : entry.path.IsConcrete) : withinRequest globs [] [] context entry = false := by
  rw [← Bool.not_eq_true, withinRequest_iff hcwd hentry]
  rintro ⟨_, _, hcovers⟩
  rw [FileSystemSandboxPolicy.resolveAccess_nil] at hcovers
  cases hentry' : entry.access <;> rw [hentry'] at hcovers <;> cases hcovers

/-- The entries of the intersection: the granted ones that the request covers, and the `deny`
entries of both sides that constrain one of those. -/
theorem mem_entries_intersect {requested granted : AdditionalPermissionProfile AbsolutePathBuf}
    (hcwd : isOpaque context.cwd = false) (hrequested : IsConcrete requested.entries)
    (hgranted : IsConcrete granted.entries) :
    entry ∈ (intersectPermissionProfilesWithContext globs requested granted context).entries
      ↔ (entry ∈ granted.entries
          ∧ withinRequest globs requested.entries requested.entries context entry = true)
        ∨ ((entry ∈ requested.entries ∨ entry ∈ granted.entries) ∧ entry.access = .deny
          ∧ denyEntryConstrains globs context (granted.entries.filter
            (withinRequest globs requested.entries requested.entries context)) entry = true) := by
  have hfilter := entries_filter_nonempty (requested.fileSystem.bind fun requestedFileSystem =>
      intersectFileSystemPermissions globs context requestedFileSystem
        (granted.fileSystem.getD ⟨[], none⟩))
  have hgrantedEntries : (granted.fileSystem.getD ⟨[], none⟩).entries = granted.entries := by
    unfold AdditionalPermissionProfile.entries
    cases granted.fileSystem <;> rfl
  show entry ∈ ((Option.filter _ _).map FileSystemPermissions.entries).getD [] ↔ _
  rw [hfilter]
  cases hsome : requested.fileSystem with
  | none =>
    have hnil : requested.entries = [] := by simp [AdditionalPermissionProfile.entries, hsome]
    rw [hnil]
    have hnone : granted.entries.filter (withinRequest globs [] [] context) = [] :=
      List.filter_eq_nil_iff.mpr fun entry hentry => by
        simp [not_withinRequest_nil hcwd (hgranted entry hentry)]
    rw [hnone]
    constructor
    · nofun
    · rintro (⟨hentry, hwithin⟩ | ⟨_, _, hconstrains⟩)
      · rw [not_withinRequest_nil hcwd (hgranted entry hentry)] at hwithin
        cases hwithin
      · cases hconstrains
  | some permissions =>
    have hentries : requested.entries = permissions.entries := by
      simp [AdditionalPermissionProfile.entries, hsome]
    rw [hentries] at hrequested ⊢
    have haccepted : ∀ entry, entry ∈ pushNew [] (granted.entries.filter
        (withinRequest globs permissions.entries permissions.entries context))
          ↔ entry ∈ granted.entries.filter
            (withinRequest globs permissions.entries permissions.entries context) := by
      intro entry
      simp [mem_pushNew]
    simp only [Option.bind_some, intersectFileSystemPermissions, hgrantedEntries,
      materialize_concrete hcwd hrequested, materialize_concrete hcwd hgranted, Option.map_some,
      Option.getD_some, mem_pushNew, constrainingDenyEntries, List.mem_filter,
      denyEntryConstrains_congr haccepted, List.not_mem_nil, false_or, decide_eq_true_eq]
    tauto

/-! ## Access under a profile -/

/-- How much a mode lets do. -/
def FileSystemAccessMode.breadth : FileSystemAccessMode → Nat
  | .deny => 0
  | .read => 1
  | .write => 2

theorem FileSystemAccessMode.breadth_pos {access : FileSystemAccessMode} (h : access ≠ .deny) :
    0 < access.breadth := by
  cases access with
  | deny => exact absurd rfl h
  | read | write => decide

/-- The access that the entries of a profile give. -/
def AdditionalPermissionProfile.access (profile : AdditionalPermissionProfile AbsolutePathBuf)
    (path : AbsolutePathBuf) (context : FileSystemSandboxPolicyContext AbsolutePathBuf) :
    FileSystemAccessMode :=
  (FileSystemSandboxPolicy.restricted profile.entries).resolveAccess path context

def AdditionalPermissionProfile.networkEnabled (profile : AdditionalPermissionProfile P) : Prop :=
  profile.network = some ⟨some true⟩

/-- The request lets the path be read only, but a granted write entry that the request covers at
its own path lies above it, with no covered entry and no `deny` below that entry. -/
def ReadLost (globs : Globs AbsolutePathBuf)
    (requested granted : AdditionalPermissionProfile AbsolutePathBuf)
    (context : FileSystemSandboxPolicyContext AbsolutePathBuf) (path : AbsolutePathBuf) : Prop :=
  requested.access path context = .read ∧ ∃ entry ∈ granted.entries, entry.access = .write
    ∧ withinRequest globs requested.entries requested.entries context entry = true
    ∧ entry.path.concretePath <+: path
    ∧ (∀ other ∈ granted.entries,
      withinRequest globs requested.entries requested.entries context other = true →
      other.path.concretePath <+: path →
      other.path.concretePath.length ≤ entry.path.concretePath.length)
    ∧ ∀ deny ∈ requested.entries ++ granted.entries, deny.access = .deny →
      deny.path.concretePath <+: path →
      deny.path.concretePath.length < entry.path.concretePath.length

/-! ## The intersection in terms of resolved entries -/

/-- The request covers an entry: it grants as much there, and denies nothing above but the
root. -/
structure Covered (request : ResolvedEntries) (root : AbsolutePathBuf)
    (access : FileSystemAccessMode) : Prop where
  grants : access ≠ .deny
  undenied : ¬ Denied request root
  covers : ∃ decider granted, Deepest request root decider granted ∧ granted ≠ .deny
    ∧ (access = .write → granted = .write)

/-- What the intersection of a request and a grant keeps above a path: the covered entries of
the grant, and with them the `deny` entries of both. -/
structure Intersects (request grant result : ResolvedEntries) (path : AbsolutePathBuf) : Prop where
  granting : ∀ root access, (root, access) ∈ result → root <+: path → access ≠ .deny →
    (root, access) ∈ grant ∧ Covered request root access
  covered : ∀ root access, (root, access) ∈ grant → root <+: path → Covered request root access →
    (root, access) ∈ result
  denying : ∀ deny root access, (deny, .deny) ∈ request ∨ (deny, .deny) ∈ grant → deny <+: path →
    (root, access) ∈ result → root <+: path → access ≠ .deny → (deny, .deny) ∈ result

namespace Intersects

variable {request grant result : ResolvedEntries} {path root : AbsolutePathBuf}
  {access : FileSystemAccessMode}

variable (h : Intersects request grant result path) (hdeepest : Deepest result path root access)
  (haccess : access ≠ .deny)

include h hdeepest haccess

section

variable {deny : AbsolutePathBuf} (hdeny : (deny, .deny) ∈ request ∨ (deny, .deny) ∈ grant)
  (hpath : deny <+: path)

include hdeny hpath

/-- A `deny` above the path lies strictly above the entry that grants. -/
theorem deny_above :
    deny.length < root.length := by
  have hmem := h.denying deny root access hdeny hpath hdeepest.mem hdeepest.covers haccess
  have hle := hdeepest.deepest _ hmem hpath
  refine lt_of_le_of_ne hle fun heq => ?_
  have hsame : deny = root := (hdeepest.covers_root hmem hpath).eq_of_length heq
  have hstrong := hdeepest.strongest .deny (hsame ▸ hmem)
  cases access with
  | deny => exact haccess rfl
  | read | write => exact absurd hstrong (by decide)

theorem deny_above_root :
    deny <+: root :=
  List.prefix_of_prefix_length_le hpath hdeepest.covers
    (h.deny_above hdeepest haccess hdeny hpath).le

end

/-- The request grants something at every path between the entry that grants and the path. -/
theorem request_ne_deny {middle : AbsolutePathBuf} (hmiddle : root <+: middle)
    (hpath : middle <+: path) :
    ∃ decider granted, Deepest request middle decider granted ∧ granted ≠ .deny := by
  obtain ⟨_, hcovered⟩ := h.granting root access hdeepest.mem hdeepest.covers haccess
  obtain ⟨above, other, habove, hother, _⟩ := hcovered.covers
  obtain ⟨inner, granted, hinner⟩ :=
    Deepest.exists_of_covers habove.mem (habove.covers.trans hmiddle)
  refine ⟨inner, granted, hinner, ?_⟩
  rintro rfl
  have hroot := h.deny_above_root hdeepest haccess (Or.inl hinner.mem) (hinner.covers.trans hpath)
  exact hother ((hinner.between hroot hmiddle).unique habove).2

/-- The result grants no more than the grant. -/
theorem le_grant {decider : AbsolutePathBuf} {granted : FileSystemAccessMode}
    (hgrant : Deepest grant path decider granted) : access.breadth ≤ granted.breadth := by
  obtain ⟨hmem, hcovered⟩ := h.granting root access hdeepest.mem hdeepest.covers haccess
  have hbelow : root <+: decider := hgrant.covers_root hmem hdeepest.covers
  have hdeny : granted ≠ .deny := by
    rintro rfl
    have hlt := h.deny_above hdeepest haccess (Or.inr hgrant.mem) hgrant.covers
    exact absurd hbelow.length_le (by omega)
  by_contra hle
  obtain ⟨rfl, rfl⟩ : access = .write ∧ granted = .read := by
    cases access <;> cases granted <;> simp_all [FileSystemAccessMode.breadth]
  -- a read entry of the grant below the write entry; it is not covered
  have hstrict : root.length < decider.length := by
    refine lt_of_le_of_ne hbelow.length_le fun heq => ?_
    have hsame : root = decider := hbelow.eq_of_length heq
    exact absurd (hgrant.strongest .write (hsame ▸ hmem)) (by decide)
  have huncovered : ¬ Covered request decider .read := by
    intro hcov
    have hmem' := h.covered decider .read hgrant.mem hgrant.covers hcov
    have hle : decider.length ≤ root.length := hdeepest.deepest _ hmem' hgrant.covers
    omega
  refine huncovered ⟨by decide, fun ⟨deny, hdeny, hne, habove⟩ => ?_, ?_⟩
  · exact hcovered.undenied ⟨deny, hdeny, hne,
      h.deny_above_root hdeepest haccess (Or.inl hdeny) (habove.trans hgrant.covers)⟩
  · obtain ⟨inner, access, hinner, haccess'⟩ :=
      h.request_ne_deny hdeepest haccess hbelow hgrant.covers
    exact ⟨inner, access, hinner, haccess', by simp⟩

end Intersects

/-! ## The entries of the intersection -/

theorem access_eq_iff_deepest {profile : AdditionalPermissionProfile AbsolutePathBuf}
    (hcwd : isOpaque context.cwd = false) (hpath : isOpaque path = false)
    (hprofile : IsConcrete profile.entries) {access : FileSystemAccessMode}
    (haccess : access ≠ .deny) :
    profile.access path context = access
      ↔ ∃ root, Deepest (concreteEntries profile.entries) path root access := by
  have hentries : (FileSystemSandboxPolicy.restricted profile.entries).resolvedEntries context
      = concreteEntries profile.entries := resolvedEntries_concrete hcwd hprofile
  rw [← hentries]
  exact resolveAccess_eq_iff_deepest rfl hcwd hpath haccess

theorem accessCovers_iff {requested granted : FileSystemAccessMode} :
    accessCovers requested granted = true
      ↔ granted ≠ .deny ∧ requested ≠ .deny ∧ (granted = .write → requested = .write) := by
  cases requested <;> cases granted <;> decide

theorem withinRequest_iff_covered {profile : AdditionalPermissionProfile AbsolutePathBuf}
    (hcwd : isOpaque context.cwd = false) (hprofile : IsConcrete profile.entries)
    (hentry : entry.path.IsConcrete) (hpath : isOpaque entry.path.concretePath = false) :
    withinRequest globs profile.entries profile.entries context entry = true
      ↔ Covered (concreteEntries profile.entries) entry.path.concretePath entry.access := by
  have haccess : ∀ {access : FileSystemAccessMode}, access ≠ .deny →
      ((FileSystemSandboxPolicy.restricted profile.entries).resolveAccess entry.path.concretePath
          context = access
        ↔ ∃ root, Deepest (concreteEntries profile.entries) entry.path.concretePath root access) :=
    access_eq_iff_deepest hcwd hpath hprofile
  rw [withinRequest_iff hcwd hentry, accessCovers_iff, ← Bool.not_eq_true,
    isReadDenied_iff hcwd hprofile hpath]
  constructor
  · rintro ⟨hgrants, hundenied, _, hrequested, hwrite⟩
    obtain ⟨decider, hdecider⟩ := (haccess hrequested).mp rfl
    exact ⟨hgrants, hundenied, decider, _, hdecider, hrequested, hwrite⟩
  · rintro ⟨hgrants, hundenied, decider, granted, hdecider, hgranted, hwrite⟩
    have heq := (haccess hgranted).mpr ⟨decider, hdecider⟩
    exact ⟨hgrants, hundenied, hgrants, heq ▸ hgranted, fun h => heq.trans (hwrite h)⟩

/-- A `deny` entry above a path constrains every entry that grants something above it. -/
theorem denyEntryConstrains_of_prefixes {accepted : LocalEntries}
    {deny : FileSystemSandboxEntry AbsolutePathBuf} (hcwd : isOpaque context.cwd = false)
    (hpath : isOpaque path = false) (hmem : entry ∈ accepted) (hgrants : entry.access ≠ .deny)
    (hentry : entry.path.IsConcrete) (habove : entry.path.concretePath <+: path)
    (hdeny : deny.path.IsConcrete) (hdeny' : deny.path.concretePath <+: path) :
    denyEntryConstrains globs context accepted deny = true := by
  have hoverlap : pathsOverlap deny.path.concretePath entry.path.concretePath = true := by
    unfold pathsOverlap
    rcases List.prefix_or_prefix_of_prefix hdeny' habove with h | h
    · have hstarts := (startsWith_iff (isOpaque_of_isPrefix habove hpath)).mpr h
      simp [uri_startsWith, hstarts]
    · have hstarts := (startsWith_iff (isOpaque_of_isPrefix hdeny' hpath)).mpr h
      simp [uri_startsWith, hstarts]
  refine List.any_eq_true.mpr ⟨entry, List.mem_filter.mpr ⟨hmem, ?_⟩, ?_⟩
  · simpa [FileSystemAccessMode.canRead] using hgrants
  · have hresolved := resolvePermissionPath_concrete hcwd hdeny
    rw [resolvePermissionPath_concrete hcwd hentry]
    cases hdenied : deny.path with
    | globPattern pattern =>
      rw [hdenied] at hdeny
      cases hdeny
    | _ =>
      rw [hdenied] at hoverlap hresolved
      simp [hresolved, hoverlap]

section

variable {requested granted : AdditionalPermissionProfile AbsolutePathBuf}

theorem networkEnabled_intersect
    (h : (intersectPermissionProfilesWithContext globs requested granted context).networkEnabled) :
    requested.networkEnabled ∧ granted.networkEnabled := by
  unfold AdditionalPermissionProfile.networkEnabled intersectPermissionProfilesWithContext at *
  split at h
  · next hrequested hgranted => exact ⟨hrequested, hgranted⟩
  · cases h

section

variable {result : AdditionalPermissionProfile AbsolutePathBuf}
  (hcwd : isOpaque context.cwd = false) (hrequested : IsConcrete requested.entries)
  (hgranted : IsConcrete granted.entries)
  (hresult : intersectPermissionProfilesWithContext globs requested granted context = result)

include hcwd hrequested hgranted hresult

theorem isConcrete_intersect : IsConcrete result.entries := by
  subst hresult
  intro entry hentry
  rcases (mem_entries_intersect hcwd hrequested hgranted).mp hentry with ⟨h, _⟩ | ⟨h | h, _⟩
  · exact hgranted entry h
  · exact hrequested entry h
  · exact hgranted entry h

variable (hpath : isOpaque path = false)

include hpath

/-- What the intersection keeps above a path of the host. -/
theorem intersects_intersect :
    Intersects (concreteEntries requested.entries) (concreteEntries granted.entries)
      (concreteEntries result.entries) path := by
  have hmem := fun entry => @mem_entries_intersect globs context entry _ _ hcwd hrequested hgranted
  rw [hresult] at hmem
  -- the entries of the result that grant something are covered entries of the grant
  have hgranting : ∀ root access, (root, access) ∈ concreteEntries result.entries →
      access ≠ .deny → ∃ entry ∈ granted.entries, entry.path.concretePath = root
        ∧ entry.access = access
        ∧ withinRequest globs requested.entries requested.entries context entry = true := by
    intro root access hentry haccess
    obtain ⟨entry, hentry, hroot, haccess'⟩ := mem_concreteEntries.mp hentry
    rcases (hmem entry).mp hentry with ⟨hgrant, hwithin⟩ | ⟨_, hdeny, _⟩
    · exact ⟨entry, hgrant, hroot, haccess', hwithin⟩
    · exact absurd (haccess'.symm.trans hdeny) haccess
  constructor
  · intro root access hentry habove haccess
    obtain ⟨entry, hgrant, rfl, rfl, hwithin⟩ := hgranting root access hentry haccess
    exact ⟨mem_concreteEntries.mpr ⟨entry, hgrant, rfl, rfl⟩,
      (withinRequest_iff_covered hcwd hrequested (hgranted entry hgrant)
        (isOpaque_of_isPrefix habove hpath)).mp hwithin⟩
  · intro root access hentry habove hcovered
    obtain ⟨entry, hgrant, rfl, rfl⟩ := mem_concreteEntries.mp hentry
    have hwithin : withinRequest globs requested.entries requested.entries context entry = true :=
      (withinRequest_iff_covered hcwd hrequested (hgranted entry hgrant)
        (isOpaque_of_isPrefix habove hpath)).mpr hcovered
    exact mem_concreteEntries.mpr ⟨entry, (hmem entry).mpr (Or.inl ⟨hgrant, hwithin⟩), rfl, rfl⟩
  · intro deny root access hdeny hdeny' hentry habove haccess
    obtain ⟨entry, hgrant, rfl, rfl, hwithin⟩ := hgranting root access hentry haccess
    obtain ⟨other, hother, rfl, hother'⟩ :
        ∃ other, (other ∈ requested.entries ∨ other ∈ granted.entries)
          ∧ other.path.concretePath = deny ∧ other.access = .deny := by
      rcases hdeny with h | h
      · obtain ⟨other, hother, h⟩ := mem_concreteEntries.mp h
        exact ⟨other, Or.inl hother, h⟩
      · obtain ⟨other, hother, h⟩ := mem_concreteEntries.mp h
        exact ⟨other, Or.inr hother, h⟩
    have hconcrete : other.path.IsConcrete := by
      rcases hother with h | h
      · exact hrequested other h
      · exact hgranted other h
    refine mem_concreteEntries.mpr ⟨other, (hmem other).mpr (Or.inr ⟨hother, hother', ?_⟩), rfl,
      hother'⟩
    exact denyEntryConstrains_of_prefixes hcwd hpath (List.mem_filter.mpr ⟨hgrant, hwithin⟩) haccess
      (hgranted entry hgrant) habove hconcrete hdeny'

/-! ## No more than either side -/

/-- Where reading is lost, the result lets write. -/
theorem access_of_readLost (hlost : ReadLost globs requested granted context path) :
    result.access path context = .write := by
  obtain ⟨_, entry, hentry, hwrite, hwithin, habove, hdeepest, hdeny⟩ := hlost
  have hmem := fun entry => @mem_entries_intersect globs context entry _ _ hcwd hrequested hgranted
  rw [hresult] at hmem
  refine (access_eq_iff_deepest hcwd hpath (isConcrete_intersect hcwd hrequested hgranted hresult)
    (by decide)).mpr ⟨entry.path.concretePath, ?_, habove, ?_, ?_⟩
  · exact mem_concreteEntries.mpr ⟨entry, (hmem entry).mpr (Or.inl ⟨hentry, hwithin⟩), rfl, hwrite⟩
  · rintro ⟨root, access⟩ hother habove'
    obtain ⟨other, hresult, rfl, rfl⟩ := mem_concreteEntries.mp hother
    rcases (hmem other).mp hresult with ⟨hgrant, hwithin'⟩ | ⟨hside, hdenies, _⟩
    · exact hdeepest other hgrant hwithin' habove'
    · exact (hdeny other (List.mem_append.mpr hside) hdenies habove').le
  · intro access hother
    obtain ⟨other, hresult, hsame, rfl⟩ := mem_concreteEntries.mp hother
    have hnot : other.access ≠ .deny := by
      intro hdenies
      have hside : other ∈ requested.entries ++ granted.entries := by
        rcases (hmem other).mp hresult with ⟨hgrant, _⟩ | ⟨hside, _⟩
        · exact List.mem_append_right _ hgrant
        · exact List.mem_append.mpr hside
      have hlt := hdeny other hside hdenies (hsame ▸ habove)
      rw [hsame] at hlt
      exact absurd hlt (lt_irrefl _)
    cases hother' : other.access with
    | deny => exact absurd hother' hnot
    | read | write => decide

/-- What the result grants beyond the request is a write where the request lets read, by a granted
entry that the request covers. -/
theorem readLost_of_lt_requested
    (hlt : (requested.access path context).breadth < (result.access path context).breadth) :
    ReadLost globs requested granted context path := by
  have hconcrete := isConcrete_intersect hcwd hrequested hgranted hresult
  have hintersects := intersects_intersect hcwd hrequested hgranted hresult hpath
  generalize hmode : result.access path context = access at hlt
  have haccess : access ≠ .deny := by
    rintro rfl
    exact absurd hlt (Nat.not_lt_zero _)
  obtain ⟨root, hdeepest⟩ := (access_eq_iff_deepest hcwd hpath hconcrete haccess).mp hmode
  obtain ⟨decider, request, hdecider, hrequest⟩ := hintersects.request_ne_deny hdeepest haccess
    hdeepest.covers (List.prefix_refl path)
  have hmode' := (access_eq_iff_deepest hcwd hpath hrequested hrequest).mpr ⟨decider, hdecider⟩
  obtain ⟨rfl, rfl⟩ : access = .write ∧ request = .read := by
    cases access <;> cases request <;> simp_all [FileSystemAccessMode.breadth]
  obtain ⟨hgrant, hcovered⟩ := hintersects.granting root .write hdeepest.mem hdeepest.covers haccess
  obtain ⟨entry, hentry, rfl, hwrite⟩ := mem_concreteEntries.mp hgrant
  have hwithin := fun {other : FileSystemSandboxEntry AbsolutePathBuf}
      (hother : other ∈ granted.entries) (habove : other.path.concretePath <+: path) =>
    @withinRequest_iff_covered globs context other requested hcwd hrequested (hgranted other hother)
      (isOpaque_of_isPrefix habove hpath)
  refine ⟨hmode', entry, hentry, hwrite, ?_, hdeepest.covers, ?_, ?_⟩
  · exact (hwithin hentry hdeepest.covers).mpr (hwrite ▸ hcovered)
  · intro other hother hwithin' habove
    exact hdeepest.deepest _ (hintersects.covered _ _ (mem_concreteEntries.mpr
      ⟨other, hother, rfl, rfl⟩) habove ((hwithin hother habove).mp hwithin')) habove
  · intro deny hdeny hdenies habove
    refine hintersects.deny_above hdeepest haccess ?_ habove
    rcases List.mem_append.mp hdeny with h | h
    · exact Or.inl (mem_concreteEntries.mpr ⟨deny, h, rfl, hdenies⟩)
    · exact Or.inr (mem_concreteEntries.mpr ⟨deny, h, rfl, hdenies⟩)

theorem access_le_granted :
    (result.access path context).breadth ≤ (granted.access path context).breadth := by
  have hconcrete := isConcrete_intersect hcwd hrequested hgranted hresult
  have hintersects := intersects_intersect hcwd hrequested hgranted hresult hpath
  generalize hmode : result.access path context = access
  by_cases haccess : access = .deny
  · rw [haccess]
    exact Nat.zero_le _
  obtain ⟨root, hdeepest⟩ := (access_eq_iff_deepest hcwd hpath hconcrete haccess).mp hmode
  obtain ⟨hmem, _⟩ := hintersects.granting root access hdeepest.mem hdeepest.covers haccess
  obtain ⟨decider, other, hdecider⟩ := Deepest.exists_of_covers hmem hdeepest.covers
  have hle := hintersects.le_grant hdeepest haccess hdecider
  have hother : other ≠ .deny := by
    rintro rfl
    exact absurd (FileSystemAccessMode.breadth_pos haccess) (Nat.not_lt.mpr hle)
  rw [(access_eq_iff_deepest hcwd hpath hgranted hother).mpr ⟨decider, hdecider⟩]
  exact hle

end

theorem access_of_isOpaque {profile : AdditionalPermissionProfile AbsolutePathBuf}
    (h : isOpaque context.cwd = true ∨ isOpaque path = true) :
    profile.access path context = .deny :=
  resolveAccess_of_isOpaque rfl h

/-- **The intersection grants no more than either side** exactly where no write entry of the grant
reaches over a path that the request lets be read only. -/
theorem intersection_le_iff_not_readLost (globs : Globs AbsolutePathBuf)
    (requested granted : AdditionalPermissionProfile AbsolutePathBuf)
    (context : FileSystemSandboxPolicyContext AbsolutePathBuf) (path : AbsolutePathBuf)
    (hrequested : IsConcrete requested.entries) (hgranted : IsConcrete granted.entries) :
    let result := intersectPermissionProfilesWithContext globs requested granted context
    ¬ ReadLost globs requested granted context path
      ↔ (result.access path context).breadth ≤ (requested.access path context).breadth
        ∧ (result.access path context).breadth ≤ (granted.access path context).breadth
        ∧ (result.networkEnabled → requested.networkEnabled ∧ granted.networkEnabled) := by
  intro result
  by_cases hdrive : isOpaque context.cwd = true ∨ isOpaque path = true
  · have hlost : ¬ ReadLost globs requested granted context path := by
      rintro ⟨hread, _⟩
      rw [access_of_isOpaque hdrive] at hread
      cases hread
    rw [access_of_isOpaque hdrive, access_of_isOpaque hdrive, access_of_isOpaque hdrive]
    exact iff_of_true hlost ⟨le_rfl, le_rfl, networkEnabled_intersect⟩
  · simp only [not_or, Bool.not_eq_true] at hdrive
    obtain ⟨hcwd, hpath⟩ := hdrive
    constructor
    · intro hlost
      refine ⟨?_, access_le_granted hcwd hrequested hgranted rfl hpath, networkEnabled_intersect⟩
      by_contra hlt
      exact hlost (readLost_of_lt_requested hcwd hrequested hgranted rfl hpath (Nat.not_le.mp hlt))
    · rintro ⟨hle, _⟩ hlost
      rw [hlost.1, access_of_readLost hcwd hrequested hgranted rfl hpath hlost] at hle
      exact absurd hle (by decide)

end

/-- Patterns are of no use to concrete profiles. -/
def noGlobs : Globs AbsolutePathBuf := ⟨fun _ _ => none, fun _ _ => none, fun _ _ _ => false⟩

/-- A project, to be written. -/
def projectProfile : AdditionalPermissionProfile AbsolutePathBuf :=
  { network := some ⟨some true⟩, fileSystem := some ⟨[⟨.path ["a"], .write, false⟩], none⟩ }

/-- A project to be written, but for a directory that is to be read. -/
def carvedProfile : AdditionalPermissionProfile AbsolutePathBuf :=
  { network := none
    fileSystem :=
      some ⟨[⟨.path ["a"], .write, false⟩, ⟨.path ["a", "b"], .read, false⟩], none⟩ }

theorem intersection_le_project :
    let context := localContext ⟨none, []⟩ ["a"]
    let result :=
      intersectPermissionProfilesWithContext noGlobs projectProfile projectProfile context
    result.access ["a", "f"] context = .write
      ∧ (result.access ["a", "f"] context).breadth
        ≤ (projectProfile.access ["a", "f"] context).breadth := by
  have hconcrete : IsConcrete projectProfile.entries := by
    simp [IsConcrete, projectProfile, AdditionalPermissionProfile.entries,
      FileSystemPath.IsConcrete]
  have hkept : ¬ ReadLost noGlobs projectProfile projectProfile (localContext ⟨none, []⟩ ["a"])
      ["a", "f"] := by
    rintro ⟨hread, _⟩
    exact absurd hread (by decide +kernel)
  exact ⟨by decide +kernel, ((intersection_le_iff_not_readLost noGlobs projectProfile projectProfile
    (localContext ⟨none, []⟩ ["a"]) ["a", "f"] hconcrete hconcrete).mp hkept).1⟩

/-- The directory that was requested for reading can be written once the project is granted. -/
theorem intersection_exceeds_carved :
    let context := localContext ⟨none, []⟩ ["a"]
    carvedProfile.access ["a", "b"] context = .read
      ∧ (intersectPermissionProfilesWithContext noGlobs carvedProfile projectProfile context).access
        ["a", "b"] context = .write := by
  decide +kernel

end

end CodexRouter.Permissions
