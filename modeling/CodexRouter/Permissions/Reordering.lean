import CodexRouter.Permissions.LocalPath

set_option autoImplicit false

/-! # The order of a policy's entries

Which entry decides does not depend on the order of the entries, and neither does full-disk
access. The metadata rule does: it stops at the first writable root whose metadata directory
holds the path. Where two such directories are nested, the outer one may be reopened by an entry
inside it while the inner one is not.
-/

namespace CodexRouter.Permissions

open PathUri

variable {P : Type} [PathUri P]

/-! ## What does not depend on the order -/

namespace FileSystemSandboxPolicy

/-- The same policy with its entries in another order. -/
def reorder (policy : FileSystemSandboxPolicy P) (entries : List (FileSystemSandboxEntry P)) :
    FileSystemSandboxPolicy P :=
  { policy with entries := entries }

variable {policy : FileSystemSandboxPolicy P} {entries : List (FileSystemSandboxEntry P)}

section

variable (h : entries.Perm policy.entries)

include h

section

variable (context : FileSystemSandboxPolicyContext P)

theorem resolvedEntries_perm :
    ((policy.reorder entries).resolvedEntries context).Perm (policy.resolvedEntries context) :=
  h.flatMap_right _

theorem coveringEntries_perm (path : P) :
    Option.Rel List.Perm ((policy.reorder entries).coveringEntries path context)
      (policy.coveringEntries path context) := by
  have hresolved := resolvedEntries_perm h context
  unfold coveringEntries
  split
  · exact .none
  · split
    · exact .none
    · rw [lexicalEntries_eq, lexicalEntries_eq, hresolved.all_eq]
      split
      · exact .some ((hresolved.filterMap _).filter _)
      · exact .none

theorem resolveAccess_reorder (path : P) :
    (policy.reorder entries).resolveAccess path context = policy.resolveAccess path context := by
  cases hkind : policy.kind with
  | unrestricted | externalSandbox => simp [resolveAccess, reorder, hkind]
  | restricted =>
    have hkind' : (policy.reorder entries).kind = .restricted := hkind
    have hcovering := coveringEntries_perm h context path
    rw [resolveAccess_restricted hkind, resolveAccess_restricted hkind']
    generalize (policy.reorder entries).coveringEntries path context = left at hcovering ⊢
    generalize policy.coveringEntries path context = right at hcovering ⊢
    cases hcovering with
    | none => rfl
    | some hperm => exact congrArg (·.getD .deny) (map_argmax_perm hperm)

theorem reopens_reorder (path protectedPath : P) :
    reopens ((policy.reorder entries).resolvedEntries context) path protectedPath
      = reopens (policy.resolvedEntries context) path protectedPath :=
  (resolvedEntries_perm h context).any_eq

end

end

variable [DecidableEq P]

theorem hasFullDiskWriteAccess_reorder (h : entries.Perm policy.entries)
    (context : FileSystemSandboxPolicyContext P) :
    (policy.reorder entries).hasFullDiskWriteAccessWithContext context
      = policy.hasFullDiskWriteAccessWithContext context := by
  have hnarrows : ∀ convention, (policy.reorder entries).narrowsWrite convention
      = policy.narrowsWrite convention := by
    intro convention
    funext entry
    have hoverride : (policy.reorder entries).hasSameTargetWriteOverride entry convention
        = policy.hasSameTargetWriteOverride entry convention := h.any_eq
    unfold narrowsWrite
    rw [hoverride]
  unfold hasFullDiskWriteAccessWithContext hasFullDiskWriteAccessForConvention hasRootAccess
    hasWriteNarrowingEntries
  simp only [hnarrows]
  simp only [reorder, h.any_eq]
  rfl

end FileSystemSandboxPolicy

/-! ## When the metadata rule does not depend on it either -/

variable [DecidableEq P]

/-- Unless the path is out of reach of the metadata rule, all the entries that protect a
directory around it have that directory reopened, or none has. -/
def MetadataAgrees (policy : FileSystemSandboxPolicy P) (path : P)
    (context : FileSystemSandboxPolicyContext P) : Prop :=
  (∃ covering ∈ policy.coveringEntries path context, Decides covering .write) →
  policy.hasFullDiskWriteAccessWithContext context = false →
  ∀ x ∈ policy.entries, ∀ y ∈ policy.entries,
    ∀ p ∈ entryProtects context path x, ∀ q ∈ entryProtects context path y,
      reopens (policy.resolvedEntries context) path p.1
        = reopens (policy.resolvedEntries context) path q.1

open FileSystemSandboxPolicy

section Restricted

variable {policy : FileSystemSandboxPolicy P} {entries : List (FileSystemSandboxEntry P)} {path : P}
  {context : FileSystemSandboxPolicyContext P}

/-- The entry that the metadata rule stops at is one of those that agree, in every order. -/
theorem canWritePath_reorder (hkind : policy.kind = .restricted)
    (hagrees : MetadataAgrees policy path context) (h : entries.Perm policy.entries) :
    (policy.reorder entries).canWritePath path context = policy.canWritePath path context := by
  have hkind' : (policy.reorder entries).kind = .restricted := hkind
  have haccess := resolveAccess_reorder h context path
  have hdisk := hasFullDiskWriteAccess_reorder h context
  cases hfull : policy.hasFullDiskWriteAccessWithContext context with
  | true => simp [canWritePath, haccess, hdisk, hfull]
  | false =>
    rw [Bool.eq_iff_iff, canWritePath_iff hkind', canWritePath_iff hkind, haccess, hdisk, hfull,
      firstProtected_resolvedEntries, firstProtected_resolvedEntries]
    refine and_congr_right fun hwrite => or_congr_right ?_
    have hsame := hagrees ((resolveAccess_eq_iff hkind (by decide)).mp hwrite) hfull
    simp only [reopens_reorder h]
    -- both orders stop at some entry, or neither does
    cases hleft : (policy.reorder entries).entries.findSome? (entryProtects context path) with
    | none =>
      have hright : policy.entries.findSome? (entryProtects context path) = none :=
        List.findSome?_eq_none_iff.mpr fun x hx =>
          List.findSome?_eq_none_iff.mp hleft x (h.mem_iff.mpr hx)
      simp [hright]
    | some p =>
      obtain ⟨x, hx, hp⟩ := List.exists_of_findSome?_eq_some hleft
      have hx : x ∈ policy.entries := h.mem_iff.mp hx
      cases hright : policy.entries.findSome? (entryProtects context path) with
      | none =>
        rw [List.findSome?_eq_none_iff.mp hright x hx] at hp
        cases hp
      | some q =>
        obtain ⟨y, hy, hq⟩ := List.exists_of_findSome?_eq_some hright
        simp [hsame x hx y hy p hp q hq]

/-- With an entry that protects a directory around the path in front, that entry decides. -/
theorem canWritePath_front (hkind : policy.kind = .restricted)
    (hwrite : policy.resolveAccess path context = .write)
    (hfull : policy.hasFullDiskWriteAccessWithContext context = false)
    {x : FileSystemSandboxEntry P} {rest : List (FileSystemSandboxEntry P)}
    (h : (x :: rest).Perm policy.entries) {p : P × String}
    (hp : entryProtects context path x = some p) :
    (policy.reorder (x :: rest)).canWritePath path context
      = reopens (policy.resolvedEntries context) path p.1 := by
  have hkind' : (policy.reorder (x :: rest)).kind = .restricted := hkind
  have hfirst : (policy.reorder (x :: rest)).entries.findSome? (entryProtects context path)
      = some p := by
    show (x :: rest).findSome? _ = some p
    rw [List.findSome?_cons, hp]
  rw [Bool.eq_iff_iff, canWritePath_iff hkind', hasFullDiskWriteAccess_reorder h,
    resolveAccess_reorder h, firstProtected_resolvedEntries, hfirst]
  simp [hwrite, hfull, reopens_reorder h]

end Restricted

/-- **Reordering.** The order of the entries of a restricted policy does not matter for a path
exactly when the entries that protect a directory around it agree. -/
theorem reordering_iff_metadataAgrees (globScanMaxDepth : Option Nat)
    (entries : List (FileSystemSandboxEntry P)) (path : P)
    (context : FileSystemSandboxPolicyContext P) :
    let policy : FileSystemSandboxPolicy P := ⟨.restricted, globScanMaxDepth, entries⟩
    (∀ entries', entries'.Perm entries →
      (policy.reorder entries').resolveAccess path context = policy.resolveAccess path context
        ∧ (policy.reorder entries').canWritePath path context = policy.canWritePath path context)
      ↔ MetadataAgrees policy path context := by
  intro policy
  have hkind : policy.kind = .restricted := rfl
  constructor
  · intro hsame hwrite hfull x hx y hy p hp q hq
    have hwrite := (resolveAccess_eq_iff hkind (by decide)).mpr hwrite
    -- every entry can be moved to the front
    have hfront : ∀ z ∈ entries, ∀ r, entryProtects context path z = some r →
        reopens (policy.resolvedEntries context) path r.1 = policy.canWritePath path context := by
      intro z hz r hr
      obtain ⟨before, after, rfl⟩ := List.append_of_mem hz
      have hperm : (z :: (before ++ after)).Perm (before ++ z :: after) := List.perm_middle.symm
      rw [← (hsame _ hperm).2]
      exact (canWritePath_front hkind hwrite hfull hperm hr).symm
    rw [hfront x hx p hp, hfront y hy q hq]
  · grind [resolveAccess_reorder, canWritePath_reorder]

/-- An entry for a path and what lies below it. -/
def pathEntry (path : P) (access : FileSystemAccessMode) : FileSystemSandboxEntry P :=
  { path := .path path, access := access, skipsMissingPath := false }

/-- A writable root and a writable directory inside its `.git`: with the root first, the `.git`
of the inner directory is writable; with the inner directory first, it is not. -/
theorem canWritePath_reorder_nestedGit :
    let outer : FileSystemSandboxEntry AbsolutePathBuf := pathEntry ["a"] .write
    let inner := pathEntry ["a", ".git", "x"] .write
    let path : AbsolutePathBuf := ["a", ".git", "x", ".git", "f"]
    let context := localContext ⟨none, []⟩ ["a"]
    (restricted [outer, inner]).canWritePath path context = true
      ∧ (restricted [inner, outer]).canWritePath path context = false := by
  decide +kernel

end CodexRouter.Permissions
