import Mathlib.Data.List.Destutter
import Mathlib.Data.List.Lex
import Mathlib.Data.List.Sort
import Mathlib.Data.PNat.Basic
import Mathlib.Data.String.Basic
import CodexRouter.Permissions.AdditionalPermissions
import CodexRouter.Permissions.WritableRoots

set_option autoImplicit false

/-! # The intersection of two effective profiles

A sub-agent runs with no more than its parent has: the profile it asks for is intersected with the
authority of the parent (`intersectEffectivePermissionProfiles`). The result starts with the
`deny` entries of both sides. Then a finite set of paths is visited from the root down, and an
entry is added wherever the access under the entries so far is not the intersection of the two
accesses.

The host is a POSIX host without symbolic links: an existing path is its own canonical path.
-/

namespace CodexRouter.Permissions

open AbsolutePathBuf

/-! ## Profiles -/

inductive NetworkSandboxPolicy
  | restricted
  | enabled
deriving DecidableEq

def NetworkSandboxPolicy.isEnabled (network : NetworkSandboxPolicy) : Bool := network = .enabled

inductive ManagedFileSystemPermissions
  | restricted (entries : LocalEntries) (globScanMaxDepth : Option ℕ+)
  | unrestricted

namespace ManagedFileSystemPermissions

def toSandboxPolicy : ManagedFileSystemPermissions → LocalPolicy
  | .restricted entries depth => ⟨.restricted, depth.map fun depth => (depth : Nat), entries⟩
  | .unrestricted => ⟨.unrestricted, none, []⟩

end ManagedFileSystemPermissions

inductive PermissionProfile
  | managed (fileSystem : ManagedFileSystemPermissions) (network : NetworkSandboxPolicy)
  | disabled
  | external (network : NetworkSandboxPolicy)

namespace PermissionProfile

def isExternal : PermissionProfile → Bool
  | .external _ => true
  | _ => false

def isDisabled : PermissionProfile → Bool
  | .disabled => true
  | _ => false

def fileSystemSandboxPolicy : PermissionProfile → LocalPolicy
  | .managed fileSystem _ => fileSystem.toSandboxPolicy
  | .disabled => ⟨.unrestricted, none, []⟩
  | .external _ => ⟨.externalSandbox, none, []⟩

def networkSandboxPolicy : PermissionProfile → NetworkSandboxPolicy
  | .managed _ network | .external network => network
  | .disabled => .enabled

def fromRuntimePermissions (policy : LocalPolicy) (network : NetworkSandboxPolicy) :
    PermissionProfile :=
  match policy.kind with
  | .externalSandbox => .external network
  | .unrestricted => .managed .unrestricted network
  | .restricted => .managed (.restricted policy.entries (policy.globScanMaxDepth.bind fun depth =>
    if h : 0 < depth then some ⟨depth, h⟩ else none)) network

end PermissionProfile

inductive PermissionIntersectionError
  | externalSandbox
  | platformDefaults
  | unsupportedPath (message : String)
deriving DecidableEq

/-! ## The host -/

/-- What the code takes from the host and its libraries: the file system, the environment, the
resolution and the compilation of globs, and the `Debug` texts of paths. -/
structure Host where
  fs : FileSystem
  env : LocalEnvironment
  resolveGlob : AbsolutePathBuf → String → Except String String
  buildGlobMatcher : String → Except String (AbsolutePathBuf → Bool)
  debugPath : FileSystemPath AbsolutePathBuf → String
  debugSpecial : FileSystemSpecialPath → String

namespace AbsolutePathBuf

def display (path : AbsolutePathBuf) : String := "/" ++ "/".intercalate path

/-- The path, its parent, and so on up to the root. -/
def ancestors (path : AbsolutePathBuf) : List AbsolutePathBuf := path.inits.reverse

end AbsolutePathBuf

/-- An existing path is its own canonical path. -/
def FileSystem.canonicalize (fs : FileSystem) (path : AbsolutePathBuf) :
    Except String AbsolutePathBuf :=
  if (fs path).isSome then .ok path
  else if (ancestors path.dropLast).any fs.isFile then .error "Not a directory (os error 20)"
  else .error "No such file or directory (os error 2)"

/-! ## Normalization -/

section

variable (host : Host)

/-- The canonical path of the nearest ancestor that has one, and the rest of the path. -/
def physicalPath (path : AbsolutePathBuf) : Except PermissionIntersectionError AbsolutePathBuf :=
  match (ancestors path).findSome? fun ancestor =>
    (host.fs.canonicalize ancestor).toOption.map (· ++ path.drop ancestor.length) with
  | some physical => .ok physical
  | none => .error (.unsupportedPath (display path))

/-- The nearest ancestor that is there, and the rest of the path. -/
def logicalPath (path : AbsolutePathBuf) : Option AbsolutePathBuf :=
  (ancestors path).findSome? fun ancestor =>
    if (host.fs ancestor).isSome then some (ancestor ++ path.drop ancestor.length) else none

/-- The physical path of an entry: one that grants something must exist. -/
def entryPhysicalPath (entry : FileSystemSandboxEntry AbsolutePathBuf) (path : AbsolutePathBuf) :
    Except PermissionIntersectionError AbsolutePathBuf :=
  if entry.access.canWrite || entry.access = .read && !entry.skipsMissingPath then
    match host.fs.canonicalize path with
    | .ok physical => .ok physical
    | .error error => .error (.unsupportedPath (display path ++ ": " ++ error))
  else physicalPath host path

/-- What `normalize_policy` does to one entry. -/
def normalizeEntry (entry : FileSystemSandboxEntry AbsolutePathBuf) :
    Except PermissionIntersectionError (FileSystemSandboxEntry AbsolutePathBuf) :=
  match entry.path with
  | .path path => do
      let physical ← entryPhysicalPath host entry path
      if !entry.access.canWrite && logicalPath host path ≠ some physical then
        throw (.unsupportedPath ("symlinked restriction: " ++ display path))
      return { entry with path := .path physical }
  | .globPattern pattern =>
    if entry.access ≠ .deny || entry.skipsMissingPath then
      throw (.unsupportedPath ("glob permissions: " ++ pattern))
    else return entry
  | .special .root | .special .tmpdir => return entry
  | .special .slashTmp => do
      let physical ← physicalPath host ["tmp"]
      return { entry with path := .path physical }
  | .special .minimal => throw .platformDefaults
  | .special value => throw (.unsupportedPath (host.debugSpecial value))

namespace FileSystemSandboxPolicy

/-- Some entry denies (`has_denied_read_restrictions`, on Unix). -/
def hasDeniedReadRestrictions (policy : LocalPolicy) : Bool :=
  policy.kind = .restricted && policy.entries.any fun entry => entry.access = .deny

def hasFullDiskReadAccess (policy : LocalPolicy) : Bool :=
  match policy.kind with
  | .unrestricted | .externalSandbox => true
  | .restricted => policy.hasRootAccess (·.canRead) && !policy.hasDeniedReadRestrictions

def includePlatformDefaults (policy : LocalPolicy) : Bool :=
  !policy.hasFullDiskReadAccess && policy.kind = .restricted
    && policy.entries.any fun entry => entry.path = .special .minimal && entry.access.canRead

end FileSystemSandboxPolicy

def normalizePolicy (policy : LocalPolicy) : Except PermissionIntersectionError LocalPolicy := do
  if policy.includePlatformDefaults then throw .platformDefaults
  let entries ← policy.entries.mapM (normalizeEntry host)
  return { policy with entries := entries }

/-! ## Read denials -/

structure ReadDenyMatcher where
  nativeCwd : AbsolutePathBuf
  deniedRoots : List AbsolutePathBuf
  denyReadMatchers : List (AbsolutePathBuf → Bool)

namespace ReadDenyMatcher

def deniedPattern (entry : FileSystemSandboxEntry AbsolutePathBuf) : Option String :=
  match entry.path with
  | .globPattern pattern => if entry.access = .deny then some pattern else none
  | _ => none

/-- The patterns of the `deny` globs, made absolute. -/
def denyReadGlobs (policy : LocalPolicy) (cwd : AbsolutePathBuf) : Except String (List String) :=
  (policy.entries.filterMap deniedPattern).mapM (host.resolveGlob cwd)

def tryNewForLocalPaths (policy : LocalPolicy) (cwd : AbsolutePathBuf) :
    Except String (Option ReadDenyMatcher) :=
  if !policy.hasDeniedReadRestrictions then return none
  else do
    let patterns ← denyReadGlobs host policy cwd
    let matchers ← patterns.mapM fun pattern =>
      match host.buildGlobMatcher pattern with
      | .ok matcher => .ok matcher
      | .error error => .error ("invalid deny-read glob pattern `" ++ pattern ++ "`: " ++ error)
    return some ⟨cwd, Permissions.deniedRoots policy (localContext host.env cwd), matchers⟩

def isLocalPathReadDenied (matcher : ReadDenyMatcher) (path : AbsolutePathBuf) : Bool :=
  isOpaque path || isOpaque matcher.nativeCwd || matcher.deniedRoots.any (startsWith path)
    || matcher.denyReadMatchers.any fun denies => denies path

end ReadDenyMatcher

/-! ## Effective access -/

namespace FileSystemSandboxPolicy

def canReadLocalPathWithCwd (policy : LocalPolicy) (path cwd : AbsolutePathBuf) : Bool :=
  (policy.resolveAccess path (localContext host.env cwd)).canRead

def getReadableRootsWithCwd (policy : LocalPolicy) (cwd : AbsolutePathBuf) :
    List AbsolutePathBuf :=
  if policy.hasFullDiskReadAccess then []
  else (((policy.resolvedEntriesWithCwd host.fs host.env cwd).filter fun entry =>
    entry.2.canRead && policy.canReadLocalPathWithCwd host entry.1 cwd).map Prod.fst).eraseDups

end FileSystemSandboxPolicy

def effectiveAccess (policy : LocalPolicy) (denies : Option ReadDenyMatcher)
    (path cwd : AbsolutePathBuf) : FileSystemAccessMode :=
  if denies.any (·.isLocalPathReadDenied path) then .deny
  else if policy.canWriteAbsolutePath host.env path cwd then .write
  else if policy.canReadLocalPathWithCwd host path cwd then .read
  else .deny

def intersectAccess (left right : FileSystemAccessMode) : FileSystemAccessMode :=
  match left, right with
  | .deny, _ | _, .deny => .deny
  | .write, .write => .write
  | .read, _ | .write, _ => .read

/-! ## The paths that are visited -/

def entryPath (entry : FileSystemSandboxEntry AbsolutePathBuf) :
    Except PermissionIntersectionError (Option AbsolutePathBuf) :=
  match entry.path with
  | .path path => return some path
  | .special .root => return some []
  | .special .tmpdir | .special .slashTmp | .globPattern _ => return none
  | .special value => throw (.unsupportedPath (host.debugSpecial value))

/-- The path is a metadata path of a writable root, which an entry may skip when it is missing. -/
def isMetadataPath (writableRoots : List WritableRoot) (path : AbsolutePathBuf) : Bool :=
  writableRoots.any fun root =>
    path ∈ root.readOnlySubpaths || path ∈ defaultReadOnlySubpaths host.fs host.env root.root false
      || protectedMetadataPathNames.any fun name => path = root.root ++ [name]

/-- The path of an entry. Entries that skip a missing path must be about metadata. -/
def visitedEntryPath (writableRoots : List WritableRoot)
    (entry : FileSystemSandboxEntry AbsolutePathBuf) :
    Except PermissionIntersectionError (Option AbsolutePathBuf) := do
  let some path ← entryPath host entry | return none
  if entry.skipsMissingPath
      && (entry.access ≠ .read || !isMetadataPath host writableRoots path) then
    throw (.unsupportedPath "non-metadata optional permissions")
  return some path

/-- The paths at which one side may change its mind. -/
def visitedPaths (policy : LocalPolicy) (cwd : AbsolutePathBuf) :
    Except PermissionIntersectionError (List AbsolutePathBuf) := do
  let writableRoots := policy.getWritableRootsWithCwd host.fs host.env cwd
  let paths ← policy.entries.mapM (visitedEntryPath host writableRoots)
  return paths.filterMap id ++ policy.getReadableRootsWithCwd host cwd
    ++ writableRoots.flatMap fun root =>
      root.root :: protectedMetadataPathNames.map (fun name => root.root ++ [name])
        ++ root.readOnlySubpaths

/-- By the number of components, then by the components. -/
def VisitedBefore (left right : AbsolutePathBuf) : Prop :=
  left.length < right.length ∨ left.length = right.length ∧ left ≤ right

instance : DecidableRel VisitedBefore :=
  fun left right => inferInstanceAs (Decidable (_ < _ ∨ _ ∧ left ≤ right))

/-! ## The loop -/

/-- The two sides, each with its read denials. -/
abbrev Sources := List (LocalPolicy × Option ReadDenyMatcher)

/-- The access that both sides give. -/
def sourcesAccess (authority requested : LocalPolicy × Option ReadDenyMatcher)
    (path cwd : AbsolutePathBuf) : FileSystemAccessMode :=
  intersectAccess (effectiveAccess host authority.1 authority.2 path cwd)
    (effectiveAccess host requested.1 requested.2 path cwd)

/-- Some entry of a side that satisfies a condition is at the path. -/
def hasEntryAt (sources : Sources) (path : AbsolutePathBuf)
    (condition : FileSystemSandboxEntry AbsolutePathBuf → Bool) : Bool :=
  sources.any fun source => source.1.entries.any fun entry =>
    condition entry && (entryPath host entry).toOption.join = some path

/-- The root is written as the special root if both sides write it so. -/
def resultPath (sources : Sources) (path : AbsolutePathBuf) : FileSystemPath AbsolutePathBuf :=
  if path = [] && sources.all fun source =>
      source.1.entries.any fun entry => entry.path = .special .root
  then .special .root else .path path

/-- One turn of the loop: an entry for the path, unless the entries so far already give it the
access of both sides and no side restricts it. -/
def visitPath (authority requested : LocalPolicy × Option ReadDenyMatcher)
    (intersectionDenies : Option ReadDenyMatcher) (cwd : AbsolutePathBuf)
    (intersection : LocalPolicy) (path : AbsolutePathBuf) : LocalPolicy :=
  let sources := [authority, requested]
  let access := sourcesAccess host authority requested path cwd
  let current := effectiveAccess host intersection intersectionDenies path cwd
  let optionalMetadata := hasEntryAt host sources path fun entry => entry.skipsMissingPath
  let requiredRestriction := hasEntryAt host sources path fun entry =>
    !entry.skipsMissingPath && !entry.access.canWrite
  if access = current && !optionalMetadata && !requiredRestriction then intersection
  else
    let entry : FileSystemSandboxEntry AbsolutePathBuf :=
      ⟨resultPath sources path, access,
        optionalMetadata && !requiredRestriction && access = .read⟩
    if entry ∈ intersection.entries then intersection
    else { intersection with entries := intersection.entries ++ [entry] }

/-! ## The intersection -/

def globDepthStep (policyDepth : Option Nat) (depth : Option (Option Nat))
    (entry : FileSystemSandboxEntry AbsolutePathBuf) : Option (Option Nat) :=
  match entry.path with
  | .globPattern _ => some (match depth with
      | none => policyDepth
      | some (some previous) => policyDepth.map fun depth => max previous depth
      | some none => none)
  | _ => depth

/-- Workspace entries must have been replaced by concrete ones. -/
def checkMaterialized (policy : LocalPolicy) : Except PermissionIntersectionError Unit :=
  policy.entries.forM fun entry =>
    match entry.path with
    | .special (.projectRoots _) =>
      throw (.unsupportedPath "workspace permissions must already be materialized")
    | .globPattern pattern =>
      if "codex-project-roots://".toList.isPrefixOf pattern.toList then
        throw (.unsupportedPath pattern)
      else return ()
    | .path _ | .special _ => return ()

/-- The entry for `:tmpdir` that both sides have. -/
def commonTemp (authority requested : LocalPolicy) :
    Except PermissionIntersectionError (Option (FileSystemSandboxEntry AbsolutePathBuf)) :=
  let tempEntries := fun (policy : LocalPolicy) =>
    policy.entries.filter fun entry => entry.path = .special .tmpdir
  let isOrdinary := fun (entry : FileSystemSandboxEntry AbsolutePathBuf) =>
    entry.access.canWrite && !entry.skipsMissingPath
  let unsupported : PermissionIntersectionError :=
    .unsupportedPath ":tmpdir restrictions require executor-local bindings"
  match tempEntries authority, tempEntries requested with
  | [left], [right] =>
    if isOrdinary left && isOrdinary right then
      return some ⟨.special .tmpdir, left.access, false⟩
    else throw unsupported
  | [], [] => return none
  | [entry], [] | [], [entry] => if isOrdinary entry then return none else throw unsupported
  | _, _ => throw unsupported

def withoutTmpdir (policy : LocalPolicy) : LocalPolicy :=
  { policy with entries := policy.entries.filter fun entry => entry.path ≠ .special .tmpdir }

def orUnsupported {α : Type} : Except String α → Except PermissionIntersectionError α
  | .ok value => .ok value
  | .error message => .error (.unsupportedPath message)

/-- The intersection of two restricted policies that have been normalized. -/
def intersectPolicies (authority requested : LocalPolicy) (cwd : AbsolutePathBuf) :
    Except PermissionIntersectionError LocalPolicy := do
  let authorityDenies ← orUnsupported (ReadDenyMatcher.tryNewForLocalPaths host authority cwd)
  let requestedDenies ← orUnsupported (ReadDenyMatcher.tryNewForLocalPaths host requested cwd)
  let authorityPaths ← visitedPaths host authority cwd
  let requestedPaths ← visitedPaths host requested cwd
  let paths := ((authorityPaths ++ requestedPaths).insertionSort VisitedBefore).destutter (· ≠ ·)
  let denies := (pushNew [] ((authority.entries ++ requested.entries).filter fun entry =>
    entry.access = .deny)).insertionSort fun left right =>
      host.debugPath left.path ≤ host.debugPath right.path
  let globDepth := requested.entries.foldl (globDepthStep requested.globScanMaxDepth)
    (authority.entries.foldl (globDepthStep authority.globScanMaxDepth) none)
  let intersection : LocalPolicy := ⟨.restricted, globDepth.join, denies⟩
  let intersectionDenies ←
    orUnsupported (ReadDenyMatcher.tryNewForLocalPaths host intersection cwd)
  return paths.foldl (visitPath host (authority, authorityDenies) (requested, requestedDenies)
    intersectionDenies cwd) intersection

/-- The same for policies that are still to be normalized. -/
def intersectRestricted (authority requested : LocalPolicy) (network : NetworkSandboxPolicy)
    (cwd : AbsolutePathBuf) : Except PermissionIntersectionError PermissionProfile := do
  let authority ← normalizePolicy host authority
  let requested ← normalizePolicy host requested
  let commonTemp ← commonTemp authority requested
  let intersection ← intersectPolicies host (withoutTmpdir authority) (withoutTmpdir requested) cwd
  return .fromRuntimePermissions
    { intersection with entries := intersection.entries ++ commonTemp.toList } network

/-- Network access is enabled if both sides enable it. -/
def intersectNetwork (authority requested : NetworkSandboxPolicy) : NetworkSandboxPolicy :=
  if authority.isEnabled && requested.isEnabled then .enabled else .restricted

def intersectEffectivePermissionProfiles (authority requested : PermissionProfile)
    (cwd : AbsolutePathBuf) : Except PermissionIntersectionError PermissionProfile :=
  if authority.isExternal || requested.isExternal then throw .externalSandbox
  else do
    checkMaterialized authority.fileSystemSandboxPolicy
    checkMaterialized requested.fileSystemSandboxPolicy
    let authorityPolicy := authority.fileSystemSandboxPolicy
    let requestedPolicy := requested.fileSystemSandboxPolicy
    let network := intersectNetwork authority.networkSandboxPolicy requested.networkSandboxPolicy
    if authority.isDisabled && requested.isDisabled then return .disabled
    else if authorityPolicy = requestedPolicy then
      return .fromRuntimePermissions authorityPolicy network
    else if authorityPolicy.kind = .unrestricted then
      return .fromRuntimePermissions requestedPolicy network
    else if requestedPolicy.kind = .unrestricted then
      return .fromRuntimePermissions authorityPolicy network
    else intersectRestricted host authorityPolicy requestedPolicy network cwd

/-- The effective access that a profile gives. -/
def PermissionProfile.effectiveAccess (profile : PermissionProfile) (path cwd : AbsolutePathBuf) :
    Except String FileSystemAccessMode := do
  let denies ← ReadDenyMatcher.tryNewForLocalPaths host profile.fileSystemSandboxPolicy cwd
  return Permissions.effectiveAccess host profile.fileSystemSandboxPolicy denies path cwd

end

end CodexRouter.Permissions
