import CodexRouter.Permissions.Policy

set_option autoImplicit false

/-! # Paths of a POSIX host

An `AbsolutePathBuf` is absolute and normalized, so it is the list of its components, none of them
`.` or `..`; nothing below depends on that, so the type does not say it. A native path is the list
of its components too, but `..` may be one of them (`NativePath`). The `file:` URI of an
`AbsolutePathBuf` has its components as segments, with one exception: a first component such as
`C:` would make the URI read as a Windows path, so it is kept as an opaque URI, which contains
nothing but itself. `AbsolutePathBuf` stands for its own URI here.
-/

namespace CodexRouter.Permissions

abbrev AbsolutePathBuf := List String

/-- An absolute `Path`, not normalized. -/
abbrev NativePath := List String

namespace AbsolutePathBuf

/-- A drive letter and a colon. -/
def isWindowsDrive (component : String) : Bool :=
  match component.toList with
  | [drive, ':'] => drive.isAlpha
  | _ => false

def isOpaque (path : AbsolutePathBuf) : Bool := path.head?.any isWindowsDrive

/-- The segments of a native path, normalized after those of a base: `.` and empty segments are
dropped, `..` goes up. -/
def normalize (base : AbsolutePathBuf) (segments : List String) : AbsolutePathBuf :=
  segments.foldl (fun path segment =>
    if segment = "" ∨ segment = "." then path
    else if segment = ".." then path.dropLast
    else path ++ [segment]) base

/-- `resolve_candidate_path`, of an absolute path. -/
def resolveCandidatePath (path : NativePath) : AbsolutePathBuf := normalize [] path

def segments (path : String) : List String := (path.toList.splitOn '/').map String.ofList

def startsWith (path base : AbsolutePathBuf) : Bool :=
  path = base || !isOpaque path && !isOpaque base && base.isPrefixOf path

/-- `PathUri::join`. A relative path that would give a first segment such as `C:` gives a Windows
URI, which no operation here goes on with. -/
def join (path : AbsolutePathBuf) (suffix : String) : Option AbsolutePathBuf :=
  if '\x00' ∈ suffix.toList then none
  else if suffix = "" then some path
  else if suffix.toList.head? = some '/' then some (normalize [] (segments suffix))
  else if isOpaque path then none
  else
    let joined := normalize path (segments suffix)
    if isOpaque joined then none else some joined

def joinDescendant (path : AbsolutePathBuf) (suffix : String) : Option AbsolutePathBuf :=
  (join path suffix).filter fun descendant =>
    suffix.toList.head? ≠ some '/' && startsWith descendant path

instance : PathUri AbsolutePathBuf where
  inferPathConvention _ := some .posix
  isOpaque := isOpaque
  lexicalDepth path := if isOpaque path then none else some path.length
  startsWith := startsWith
  top path := if isOpaque path then path else []
  isTop path := isOpaque path || path.isEmpty
  basename path := if isOpaque path then none else path.getLast?
  join := join
  joinDescendant := joinDescendant

/-- The operations of the URI of a local path. -/
theorem uri_startsWith (path base : AbsolutePathBuf) :
    PathUri.startsWith path base = startsWith path base := rfl

theorem uri_joinDescendant (path : AbsolutePathBuf) (suffix : String) :
    PathUri.joinDescendant path suffix = joinDescendant path suffix := rfl

variable {path base root : AbsolutePathBuf}

theorem uri_lexicalDepth (h : isOpaque path = false) :
    PathUri.lexicalDepth path = some path.length := by
  show (if isOpaque path then none else some path.length) = _
  rw [h]
  rfl

/-! ## Containment -/

theorem isOpaque_nil : isOpaque [] = false := rfl

/-- What lies above a path that is not opaque is not opaque. -/
theorem isOpaque_of_isPrefix (h : base <+: path) (hpath : isOpaque path = false) :
    isOpaque base = false := by
  cases base with
  | nil => rfl
  | cons first rest =>
    obtain ⟨suffix, rfl⟩ := h
    exact hpath

theorem startsWith_iff (hpath : isOpaque path = false) :
    startsWith path base = true ↔ base <+: path := by
  simp only [startsWith, Bool.or_eq_true, decide_eq_true_eq, Bool.and_eq_true,
    List.isPrefixOf_iff_prefix, hpath, Bool.not_false, true_and, Bool.not_eq_true']
  constructor
  · grind
  · exact fun h => Or.inr ⟨isOpaque_of_isPrefix h hpath, h⟩

theorem startsWith_of_isOpaque (hpath : isOpaque path = true) :
    startsWith path base = true ↔ path = base := by
  simp [startsWith, hpath]

theorem prefix_of_startsWith (h : startsWith path base = true) : base <+: path := by
  cases hpath : isOpaque path with
  | true => exact (startsWith_of_isOpaque hpath).mp h ▸ List.prefix_refl _
  | false => exact (startsWith_iff hpath).mp h

/-! ## Metadata directories -/

theorem isOpaque_append_of_not_drive {name : String} (hroot : isOpaque root = false)
    (hname : isWindowsDrive name = false) : isOpaque (root ++ [name]) = false := by
  cases root with
  | nil => simp [isOpaque, hname]
  | cons first rest => exact hroot

/-- The metadata names are plain relative names. -/
theorem metadata_names_plain : ∀ name ∈ protectedMetadataPathNames,
    '\x00' ∉ name.toList ∧ name ≠ "" ∧ name.toList.head? ≠ some '/' ∧ segments name = [name]
      ∧ name ≠ "." ∧ name ≠ ".." ∧ isWindowsDrive name = false := by
  decide

theorem joinDescendant_metadata {name : String} (hname : name ∈ protectedMetadataPathNames)
    (root : AbsolutePathBuf) :
    joinDescendant root name = if isOpaque root then none else some (root ++ [name]) := by
  obtain ⟨hnull, hempty, hslash, hsegments, hdot, hdots, hdrive⟩ := metadata_names_plain name hname
  have hnormal : normalize root (segments name) = root ++ [name] := by
    simp [normalize, hsegments, hempty, hdot, hdots]
  cases hroot : isOpaque root with
  | true => simp [joinDescendant, join, hnull, hempty, hslash, hroot]
  | false =>
    have hjoined := isOpaque_append_of_not_drive hroot hdrive
    have hbelow : startsWith (root ++ [name]) root = true :=
      (startsWith_iff hjoined).mpr (List.prefix_append root [name])
    simp [joinDescendant, join, hnull, hempty, hslash, hroot, hnormal, hjoined, hbelow]

/-- What the metadata rule finds is a metadata directory of the root around the path. -/
theorem of_protectedMetadata_eq_some {found : AbsolutePathBuf × String}
    (h : protectedMetadata path root = some found) :
    found.2 ∈ protectedMetadataPathNames ∧ found.1 = root ++ [found.2]
      ∧ startsWith path found.1 = true := by
  obtain ⟨name, hname, hfound⟩ := List.exists_of_findSome?_eq_some h
  rw [uri_joinDescendant, joinDescendant_metadata hname] at hfound
  cases hroot : isOpaque root with
  | true =>
    rw [hroot] at hfound
    cases hfound
  | false =>
    simp only [hroot, Bool.false_eq_true, if_false, uri_startsWith] at hfound
    split at hfound
    · next hbelow =>
      cases hfound
      exact ⟨hname, rfl, hbelow⟩
    · cases hfound

theorem protectedMetadata_eq_some_iff {found : AbsolutePathBuf × String}
    (hpath : isOpaque path = false) :
    protectedMetadata path root = some found
      ↔ found.2 ∈ protectedMetadataPathNames ∧ found.1 = root ++ [found.2] ∧ found.1 <+: path := by
  constructor
  · intro h
    obtain ⟨hname, hjoin, hbelow⟩ := of_protectedMetadata_eq_some h
    exact ⟨hname, hjoin, (startsWith_iff hpath).mp hbelow⟩
  · rintro ⟨hname, hjoin, hbelow⟩
    have hroot : isOpaque root = false :=
      isOpaque_of_isPrefix ((List.prefix_append root [found.2]).trans (hjoin ▸ hbelow)) hpath
    -- some name is found, and it is the one that follows the root on the path
    have hsome : (protectedMetadata path root).isSome = true := by
      refine List.findSome?_isSome_iff.mpr ⟨found.2, hname, ?_⟩
      rw [uri_joinDescendant, joinDescendant_metadata hname, hroot]
      simp [uri_startsWith, startsWith_iff hpath, ← hjoin, hbelow]
    obtain ⟨found', hfound'⟩ := Option.isSome_iff_exists.mp hsome
    obtain ⟨_, hjoin', hbelow'⟩ := of_protectedMetadata_eq_some hfound'
    have hbelow' := (startsWith_iff hpath).mp hbelow'
    have hlength : found'.1.length = found.1.length := by rw [hjoin, hjoin']; simp
    have hsame : found'.1 = found.1 :=
      (List.prefix_of_prefix_length_le hbelow' hbelow hlength.le).eq_of_length hlength
    have hsame' : found'.2 = found.2 := by
      rw [hjoin, hjoin'] at hsame
      simpa using hsame
    rw [hfound', Prod.ext hsame hsame']

end AbsolutePathBuf

/-- What a local check takes from the environment of the process. -/
structure LocalEnvironment where
  userHomeDir : Option AbsolutePathBuf
  temporaryDirectories : List AbsolutePathBuf

/-- The context of a check of local paths. -/
def localContext (env : LocalEnvironment) (cwd : AbsolutePathBuf) :
    FileSystemSandboxPolicyContext AbsolutePathBuf :=
  { cwd := cwd, workspaceRoots := [cwd], userHomeDir := env.userHomeDir,
    temporaryDirectories := some env.temporaryDirectories }

end CodexRouter.Permissions
