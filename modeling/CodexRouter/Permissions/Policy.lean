import Mathlib.Data.List.MinMax
import Mathlib.Data.Prod.Lex
import Mathlib.Tactic

set_option autoImplicit false

/-! # File system sandbox policies

A restricted policy is a list of entries, each of which gives an access mode to what lies at or
below a path. The deepest entry that covers a path decides (`resolveAccess`); of two equally deep
ones `deny` beats `write` and `write` beats `read`. On top of that the metadata directories of a
writable root are not writable unless an entry inside them says so (`metadataWriteDenial`).

Paths are executor-owned URIs. What the policy uses of them is the class `PathUri`: parsing URLs
and the grammar of Windows paths stay behind it.
-/

namespace CodexRouter.Permissions

/-! ## Paths -/

inductive PathConvention
  | posix
  | windows
deriving DecidableEq

/-- The operations of `PathUri`. `top` is the last of `ancestors`, `isTop` says that there is no
`parent`, and a join that fails is `none`. -/
class PathUri (P : Type) where
  inferPathConvention : P → Option PathConvention
  isOpaque : P → Bool
  lexicalDepth : P → Option Nat
  startsWith : P → P → Bool
  top : P → P
  isTop : P → Bool
  basename : P → Option String
  join : P → String → Option P
  joinDescendant : P → String → Option P

open PathUri

/-! ## Entries -/

inductive FileSystemAccessMode
  | read
  | write
  | deny
deriving DecidableEq

namespace FileSystemAccessMode

def canRead (access : FileSystemAccessMode) : Bool := access ≠ .deny

def canWrite (access : FileSystemAccessMode) : Bool := access = .write

/-- The position in the conflict precedence. -/
def precedence : FileSystemAccessMode → Nat
  | .read => 0
  | .write => 1
  | .deny => 2

theorem precedence_injective : Function.Injective precedence := by
  intro a b h
  cases a <;> cases b <;> first | rfl | cases h

instance : LinearOrder FileSystemAccessMode := LinearOrder.lift' precedence precedence_injective

@[simp] theorem canWrite_iff {access : FileSystemAccessMode} :
    access.canWrite = true ↔ access = .write := by
  simp [canWrite]

end FileSystemAccessMode

inductive FileSystemSpecialPath
  | root
  | minimal
  | projectRoots (subpath : Option String)
  | tmpdir
  | slashTmp
  | unknown (path : String) (subpath : Option String)
deriving DecidableEq

inductive FileSystemPath (P : Type)
  | path (path : P)
  | globPattern (pattern : String)
  | special (value : FileSystemSpecialPath)
deriving DecidableEq

structure FileSystemSandboxEntry (P : Type) where
  path : FileSystemPath P
  access : FileSystemAccessMode
  skipsMissingPath : Bool
deriving DecidableEq

inductive FileSystemSandboxKind
  | restricted
  | unrestricted
  | externalSandbox
deriving DecidableEq

structure FileSystemSandboxPolicy (P : Type) where
  kind : FileSystemSandboxKind
  globScanMaxDepth : Option Nat
  entries : List (FileSystemSandboxEntry P)
deriving DecidableEq

/-- The executor's paths that the entries are read with. -/
structure FileSystemSandboxPolicyContext (P : Type) where
  cwd : P
  workspaceRoots : List P
  userHomeDir : Option P
  temporaryDirectories : Option (List P)

variable {P : Type}

def FileSystemSandboxPolicy.restricted (entries : List (FileSystemSandboxEntry P)) :
    FileSystemSandboxPolicy P :=
  { kind := .restricted, globScanMaxDepth := none, entries := entries }

/-! ## Specificity -/

/-- By depth, then by conflict precedence. -/
def specificity (entry : P × FileSystemAccessMode × Nat) : ℕ ×ₗ FileSystemAccessMode :=
  toLex (entry.2.2, entry.2.1)

/-- The entry that decides: no other one is more specific. -/
def Decides (covering : List (P × FileSystemAccessMode × Nat)) (access : FileSystemAccessMode) :
    Prop :=
  ∃ entry ∈ covering, entry.2.1 = access
    ∧ ∀ other ∈ covering, specificity other ≤ specificity entry

theorem access_eq_of_specificity_eq {entry other : P × FileSystemAccessMode × Nat}
    (h : specificity entry = specificity other) : entry.2.1 = other.2.1 :=
  (Prod.mk.inj (toLex_inj.mp h)).2

theorem map_argmax_eq_some_iff {covering : List (P × FileSystemAccessMode × Nat)}
    {access : FileSystemAccessMode} :
    (covering.argmax specificity).map (fun entry => entry.2.1) = some access
      ↔ Decides covering access := by
  rw [Option.map_eq_some_iff]
  constructor
  · rintro ⟨entry, hentry, rfl⟩
    exact ⟨entry, List.argmax_mem hentry, rfl, fun other hother =>
      List.le_of_mem_argmax hother hentry⟩
  · rintro ⟨entry, hentry, rfl, hmax⟩
    obtain ⟨best, hbest⟩ := Option.ne_none_iff_exists'.mp
      (fun h => List.ne_nil_of_mem hentry (List.argmax_eq_none.mp h) :
        covering.argmax specificity ≠ none)
    have hle := hmax best (List.argmax_mem hbest)
    have hge := List.le_of_mem_argmax hentry hbest
    exact ⟨best, hbest, access_eq_of_specificity_eq (le_antisymm hle hge)⟩

theorem Decides.perm {covering covering' : List (P × FileSystemAccessMode × Nat)}
    {access : FileSystemAccessMode} (hd : Decides covering access) (h : covering.Perm covering') :
    Decides covering' access := by
  obtain ⟨entry, hentry, haccess, hmax⟩ := hd
  exact ⟨entry, h.mem_iff.mp hentry, haccess, fun other hother => hmax other (h.mem_iff.mpr hother)⟩

theorem map_argmax_perm {covering covering' : List (P × FileSystemAccessMode × Nat)}
    (h : covering.Perm covering') :
    (covering.argmax specificity).map (fun entry => entry.2.1)
      = (covering'.argmax specificity).map fun entry => entry.2.1 := by
  ext access
  rw [map_argmax_eq_some_iff, map_argmax_eq_some_iff]
  exact ⟨fun hd => hd.perm h, fun hd => hd.perm h.symm⟩

/-! ## Resolving entries -/

variable [PathUri P] (policy : FileSystemSandboxPolicy P) (path : P)
  (context : FileSystemSandboxPolicyContext P)

def fileSystemRoot : Option P :=
  (lexicalDepth context.cwd).map fun _ => top context.cwd

/-- The concrete paths of an entry. -/
def entryPaths : FileSystemPath P → List P
  | .path path => [path]
  | .globPattern _ => []
  | .special .root => (fileSystemRoot context).toList
  | .special (.projectRoots subpath) => context.workspaceRoots.filterMap fun root =>
    match subpath with
    | some subpath => join root subpath
    | none => some root
  | .special .tmpdir => context.temporaryDirectories.getD []
  | .special .slashTmp =>
    if inferPathConvention context.cwd = some .posix then (join context.cwd "/tmp").toList
    else []
  | .special .minimal => []
  | .special (.unknown _ _) => []

/-- The paths of one entry that are of the executor's convention, with its access. -/
def resolvedEntry (entry : FileSystemSandboxEntry P) : List (P × FileSystemAccessMode) :=
  ((entryPaths context entry.path).filter fun path =>
    inferPathConvention path = inferPathConvention context.cwd).map fun path => (path, entry.access)

def FileSystemSandboxPolicy.resolvedEntries : List (P × FileSystemAccessMode) :=
  policy.entries.flatMap (resolvedEntry context)

/-! ## The deepest entry decides -/

/-- The entries with their depths. An opaque path without a depth is passed over; any other path
without one makes the whole list useless. -/
def lexicalEntries :
    List (P × FileSystemAccessMode) → Option (List (P × FileSystemAccessMode × Nat))
  | [] => some []
  | (root, access) :: rest =>
    match lexicalDepth root with
    | some depth => (lexicalEntries rest).map ((root, access, depth) :: ·)
    | none => if isOpaque root then lexicalEntries rest else none

namespace FileSystemSandboxPolicy

/-- The entries that cover a path, when the path and the context can be compared at all. -/
def coveringEntries : Option (List (P × FileSystemAccessMode × Nat)) :=
  match inferPathConvention context.cwd with
  | none => none
  | some convention =>
    if inferPathConvention path ≠ some convention ∨ lexicalDepth path = none
        ∨ lexicalDepth context.cwd = none then none
    else (lexicalEntries (policy.resolvedEntries context)).map
      (·.filter fun entry => startsWith path entry.1)

def resolveAccess : FileSystemAccessMode :=
  match policy.kind with
  | .unrestricted | .externalSandbox => .write
  | .restricted =>
    match policy.coveringEntries path context with
    | none => .deny
    | some entries => ((entries.argmax specificity).map fun entry => entry.2.1).getD .deny

end FileSystemSandboxPolicy

/-- A path is opaque or has a depth. -/
def comparable (path : P) : Bool := (lexicalDepth path).isSome || isOpaque path

def withDepth (entry : P × FileSystemAccessMode) : Option (P × FileSystemAccessMode × Nat) :=
  (lexicalDepth entry.1).map fun depth => (entry.1, entry.2, depth)

theorem lexicalEntries_eq (entries : List (P × FileSystemAccessMode)) :
    lexicalEntries entries = if entries.all fun entry => comparable entry.1
      then some (entries.filterMap withDepth) else none := by
  induction entries with
  | nil => rfl
  | cons entry rest ih =>
    obtain ⟨root, access⟩ := entry
    cases hdepth : lexicalDepth root with
    | some depth =>
      have hroot : comparable root = true := by simp [comparable, hdepth]
      have hentry : withDepth (root, access) = some (root, access, depth) := by
        simp [withDepth, hdepth]
      simp only [lexicalEntries, hdepth, ih, List.all_cons, List.filterMap_cons, hroot, hentry,
        Bool.true_and]
      cases rest.all fun entry => comparable entry.1 <;> rfl
    | none =>
      have hroot : comparable root = isOpaque root := by simp [comparable, hdepth]
      have hentry : withDepth (root, access) = none := by simp [withDepth, hdepth]
      simp only [lexicalEntries, hdepth, ih, List.all_cons, List.filterMap_cons, hroot, hentry]
      cases isOpaque root <;> rfl

namespace FileSystemSandboxPolicy

variable {policy path context}

theorem resolveAccess_restricted (h : policy.kind = .restricted) :
    policy.resolveAccess path context = ((policy.coveringEntries path context).bind fun entries =>
      (entries.argmax specificity).map fun entry => entry.2.1).getD .deny := by
  unfold resolveAccess
  rw [h]
  cases policy.coveringEntries path context <;> rfl

variable (path context) in
theorem resolveAccess_nil :
    (restricted []).resolveAccess path context = .deny := by
  rw [resolveAccess_restricted rfl]
  unfold coveringEntries
  split
  · rfl
  · split <;> rfl

/-- What a restricted policy grants is decided by an entry. -/
theorem resolveAccess_eq_iff (h : policy.kind = .restricted) {access : FileSystemAccessMode}
    (haccess : access ≠ .deny) :
    policy.resolveAccess path context = access
      ↔ ∃ covering ∈ policy.coveringEntries path context, Decides covering access := by
  rw [resolveAccess_restricted h, Option.getD_eq_iff, Option.bind_eq_some_iff]
  constructor
  · rintro (⟨covering, hcovering, haccess⟩ | ⟨_, hdeny⟩)
    · exact ⟨covering, hcovering, map_argmax_eq_some_iff.mp haccess⟩
    · exact absurd hdeny.symm haccess
  · rintro ⟨covering, hcovering, haccess⟩
    exact Or.inl ⟨covering, hcovering, map_argmax_eq_some_iff.mpr haccess⟩

end FileSystemSandboxPolicy

/-! ## Protected metadata -/

def protectedMetadataPathNames : List String := [".git", ".agents", ".codex"]

/-- The metadata directory of a writable root that a path lies in. -/
def protectedMetadata (path root : P) : Option (P × String) :=
  protectedMetadataPathNames.findSome? fun metadataName =>
    match joinDescendant root metadataName with
    | none => none
    | some protectedPath =>
      if startsWith path protectedPath then some (protectedPath, metadataName) else none

/-- A writable entry inside the metadata directory covers the path. -/
def reopens (entries : List (P × FileSystemAccessMode)) (path protectedPath : P) : Bool :=
  entries.any fun entry =>
    entry.2.canWrite && startsWith path entry.1 && startsWith entry.1 protectedPath

/-- The first writable root with a metadata directory around the path: that directory. -/
def firstProtected (entries : List (P × FileSystemAccessMode)) (path : P) : Option (P × String) :=
  (entries.filter fun entry => entry.2.canWrite).findSome? fun entry =>
    protectedMetadata path entry.1

namespace FileSystemSandboxPolicy

def metadataWriteDenial : Option String :=
  match policy.kind with
  | .unrestricted | .externalSandbox => none
  | .restricted =>
    let entries := policy.resolvedEntries context
    match firstProtected entries path with
    | none => none
    | some (protectedPath, metadataName) =>
      if reopens entries path protectedPath then none else some metadataName

end FileSystemSandboxPolicy

/-- The first metadata directory that one entry protects around a path. -/
def entryProtects (context : FileSystemSandboxPolicyContext P) (path : P)
    (entry : FileSystemSandboxEntry P) : Option (P × String) :=
  ((resolvedEntry context entry).filter fun resolved => resolved.2.canWrite).findSome?
    fun resolved => protectedMetadata path resolved.1

theorem findSome?_flatMap {α β γ : Type} (l : List α) (g : α → List β) (f : β → Option γ) :
    (l.flatMap g).findSome? f = l.findSome? fun a => (g a).findSome? f := by
  induction l with
  | nil => rfl
  | cons a l ih =>
    rw [List.flatMap_cons, List.findSome?_append, ih, List.findSome?_cons]
    cases (g a).findSome? f <;> rfl

namespace FileSystemSandboxPolicy

variable {policy path context}

theorem metadataWriteDenial_eq_none_iff (h : policy.kind = .restricted) :
    policy.metadataWriteDenial path context = none
      ↔ ∀ found ∈ firstProtected (policy.resolvedEntries context) path,
        reopens (policy.resolvedEntries context) path found.1 = true := by
  unfold metadataWriteDenial
  rw [h]
  cases hfirst : firstProtected (policy.resolvedEntries context) path with
  | none => simp [hfirst]
  | some found => simp [hfirst]

/-- The metadata rule stops at the first entry that protects a directory around the path. -/
theorem firstProtected_resolvedEntries :
    firstProtected (policy.resolvedEntries context) path
      = policy.entries.findSome? (entryProtects context path) := by
  rw [firstProtected, resolvedEntries, List.filter_flatMap, findSome?_flatMap]
  rfl

end FileSystemSandboxPolicy

/-! ## Full-disk write access -/

/-- Special paths that name the same place whatever the working directory. -/
def specialPathMatchesPathUri (value : FileSystemSpecialPath) (path : P) : Bool :=
  match value with
  | .root => (lexicalDepth path).isSome && isTop path
  | .slashTmp =>
    inferPathConvention path = some .posix && lexicalDepth path = some 1
      && basename path = some "tmp"
  | _ => false

variable [DecidableEq P]

/-- Two entries' paths are the same target before any prefix matching. Two special paths share
a target when they are the same token. -/
def fileSystemPathsShareTarget (left right : FileSystemPath P) (convention : PathConvention) :
    Bool :=
  match left, right with
  | .path left, .path right => left = right
  | .special left, .special right => left = right
  | .path path, .special value | .special value, .path path =>
    inferPathConvention path = some convention && specialPathMatchesPathUri value path
  | .globPattern left, .globPattern right => left = right
  | .globPattern _, _ | _, .globPattern _ => false

namespace FileSystemSandboxPolicy

def hasRootAccess (predicate : FileSystemAccessMode → Bool) : Bool :=
  policy.kind = .restricted
    && policy.entries.any fun entry => entry.path = .special .root && predicate entry.access

def hasSameTargetWriteOverride (entry : FileSystemSandboxEntry P) (convention : PathConvention) :
    Bool :=
  policy.entries.any fun candidate =>
    candidate.access.canWrite && entry.access < candidate.access
      && fileSystemPathsShareTarget candidate.path entry.path convention

/-- An entry takes something away from `:root = write`. -/
def narrowsWrite (convention : PathConvention) (entry : FileSystemSandboxEntry P) : Bool :=
  if entry.access.canWrite then false
  else match entry.path with
    | .path _ => !policy.hasSameTargetWriteOverride entry convention
    | .globPattern _ => true
    | .special .root => entry.access = .deny
    | .special .slashTmp =>
      if convention = .windows then false
      else !policy.hasSameTargetWriteOverride entry convention
    | .special .minimal | .special (.unknown _ _) => false
    | .special (.projectRoots _) | .special .tmpdir =>
      !policy.hasSameTargetWriteOverride entry convention

def hasWriteNarrowingEntries (convention : PathConvention) : Bool :=
  policy.kind = .restricted && policy.entries.any (policy.narrowsWrite convention)

def hasFullDiskWriteAccessForConvention (convention : Option PathConvention) : Bool :=
  match policy.kind with
  | .unrestricted | .externalSandbox => true
  | .restricted =>
    match convention with
    | none => false
    | some convention =>
      policy.hasRootAccess (·.canWrite) && !policy.hasWriteNarrowingEntries convention

def hasFullDiskWriteAccessWithContext : Bool :=
  policy.hasFullDiskWriteAccessForConvention (inferPathConvention context.cwd)

end FileSystemSandboxPolicy

/-! ## Writing -/

namespace FileSystemSandboxPolicy

def canWritePath : Bool :=
  if !(policy.resolveAccess path context).canWrite then false
  else policy.hasFullDiskWriteAccessWithContext context
    || (policy.metadataWriteDenial path context).isNone

variable {policy path context}

/-- What the deepest entry lets write is writable unless the first metadata directory around it
is closed. -/
theorem canWritePath_iff (h : policy.kind = .restricted) :
    policy.canWritePath path context = true
      ↔ policy.resolveAccess path context = .write
        ∧ (policy.hasFullDiskWriteAccessWithContext context = true
          ∨ ∀ found ∈ firstProtected (policy.resolvedEntries context) path,
            reopens (policy.resolvedEntries context) path found.1 = true) := by
  rw [← metadataWriteDenial_eq_none_iff h]
  simp [canWritePath]

end FileSystemSandboxPolicy

end CodexRouter.Permissions
