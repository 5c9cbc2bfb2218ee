import CodexRouter.Lib.Fallible
import CodexRouter.NetworkProxy.DomainPattern

set_option autoImplicit false

/-! # Managed constraints of the network proxy

A managed configuration constrains what a proxy configuration may say
(`validatePolicyAgainstConstraints`). With `allowlistExpansionEnabled` unset, the managed
`allowedDomains` are a ceiling: every entry of the configuration must be allowed by a managed one.
-/

namespace CodexRouter.NetworkProxy

open Lib

/-! ## Configuration -/

inductive NetworkMode
  | limited
  | full
deriving DecidableEq

/-- In the order of precedence for duplicate patterns. -/
inductive NetworkDomainPermission
  | none
  | allow
  | deny
deriving DecidableEq

def NetworkDomainPermission.rank : NetworkDomainPermission → Nat
  | .none => 0
  | .allow => 1
  | .deny => 2

structure NetworkDomainPermissionEntry where
  pattern : Text
  permission : NetworkDomainPermission

structure NetworkProxyConfig where
  enabled : Bool
  mode : NetworkMode
  allowUpstreamProxy : Bool
  dangerouslyAllowNonLoopbackProxy : Bool
  dangerouslyAllowAllUnixSockets : Bool
  domains : Option (List NetworkDomainPermissionEntry)
  -- the paths with whether they are allowed
  unixSockets : Option (List (Text × Bool))
  allowLocalBinding : Bool

structure NetworkProxyConstraints where
  enabled : Option Bool
  mode : Option NetworkMode
  allowUpstreamProxy : Option Bool
  dangerouslyAllowNonLoopbackProxy : Option Bool
  dangerouslyAllowAllUnixSockets : Option Bool
  allowedDomains : Option (List Text)
  allowlistExpansionEnabled : Option Bool
  deniedDomains : Option (List Text)
  denylistExpansionEnabled : Option Bool
  allowUnixSockets : Option (List Text)
  allowLocalBinding : Option Bool

/-- The first permission of a pattern, raised by the later ones. -/
def strongestPermission (entries : List NetworkDomainPermissionEntry) (pattern : Text) :
    NetworkDomainPermission :=
  ((entries.filter fun entry => entry.pattern = pattern).map
    NetworkDomainPermissionEntry.permission).foldl
      (fun permission other => if permission.rank < other.rank then other else permission) .none

def effectiveEntries (entries : List NetworkDomainPermissionEntry) :
    List NetworkDomainPermissionEntry :=
  (entries.map NetworkDomainPermissionEntry.pattern).eraseDups.map fun pattern =>
    ⟨pattern, strongestPermission entries pattern⟩

namespace NetworkProxyConfig

def domainEntries (config : NetworkProxyConfig) (permission : NetworkDomainPermission) :
    Option (List Text) :=
  (config.domains.map fun domains =>
    ((effectiveEntries domains).filter fun entry => entry.permission = permission).map
      NetworkDomainPermissionEntry.pattern).filter fun entries => !entries.isEmpty

def allowedDomains (config : NetworkProxyConfig) : Option (List Text) :=
  config.domainEntries .allow

def deniedDomains (config : NetworkProxyConfig) : Option (List Text) :=
  config.domainEntries .deny

def allowUnixSockets (config : NetworkProxyConfig) : List Text :=
  (config.unixSockets.map fun sockets =>
    (sockets.filter fun socket => socket.2).map Prod.fst).getD []

end NetworkProxyConfig

/-! ## Validation -/

/-- An invalid value, with the text of the candidate and of what is allowed. -/
structure NetworkProxyConstraintError where
  fieldName : String
  candidate : String
  allowed : String
deriving DecidableEq

/-- A flag may be set only if it is allowed. -/
def validateFlag (fieldName : String) (candidate allowed : Bool) :
    Except NetworkProxyConstraintError Unit :=
  if candidate && !allowed then .error ⟨fieldName, "true", "false (disabled by managed config)"⟩
  else .ok ()

def networkModeRank : NetworkMode → Nat
  | .limited => 0
  | .full => 1

def NetworkMode.debug : NetworkMode → String
  | .limited => "Limited"
  | .full => "Full"

def validateMode (candidate : NetworkMode) (maxMode : Option NetworkMode) :
    Except NetworkProxyConstraintError Unit :=
  match maxMode with
  | some maxMode =>
    if networkModeRank candidate > networkModeRank maxMode then
      .error ⟨"network.mode", candidate.debug, maxMode.debug ++ " or more restrictive"⟩
    else .ok ()
  | none => .ok ()

section

variable (libs : Libraries)

def validateNonGlobalWildcardDomainPatterns (fieldName : String) (patterns : List Text) :
    Except NetworkProxyConstraintError Unit :=
  match patterns.find? (isGlobalWildcardDomainPattern libs) with
  | some pattern => .error ⟨fieldName, String.ofList (trim pattern),
      "exact hosts or scoped wildcards like *.example.com or **.example.com"⟩
  | none => .ok ()

/-- The entries that no managed entry allows. -/
def entriesAboveCeiling (managed candidate : List Text) : List Text :=
  let managedPatterns := managed.map (DomainPattern.parseForConstraints libs)
  candidate.filter fun entry =>
    !managedPatterns.any (·.allows (DomainPattern.parseForConstraints libs entry))

local instance lawfulText : LawfulBEq Text := inferInstance

/-- The same lower-case entries, as sets. -/
def sameEntries (left right : List Text) : Bool :=
  left.all (· ∈ right) && right.all (· ∈ left)

variable (debug : List Text → String)

/-- `allowed_domains` against the managed list. Sets are lists without repetition here, in the
order of the managed list. -/
def validateAllowedDomains (allowedDomains : List Text) (expansion : Option Bool)
    (candidate deniedDomains : List Text) : Except NetworkProxyConstraintError Unit := do
  validateNonGlobalWildcardDomainPatterns libs "network.allowed_domains" allowedDomains
  let requiredSet := (allowedDomains.map toAsciiLowercase).eraseDups
  let candidateSet := candidate.map toAsciiLowercase
  let overrides := deniedDomains.map toAsciiLowercase
  match expansion with
  | some true =>
    let missing := requiredSet.filter fun entry => entry ∉ candidateSet && entry ∉ overrides
    if missing = [] then .ok ()
    else .error ⟨"network.allowed_domains", "missing managed allowed_domains entries",
      debug missing⟩
  | some false =>
    if sameEntries candidateSet (requiredSet.filter (· ∉ overrides)) then .ok ()
    else .error ⟨"network.allowed_domains", debug candidate,
      "must match managed allowed_domains"⟩
  | none =>
    let invalid := entriesAboveCeiling libs allowedDomains candidate
    if invalid = [] then .ok ()
    else .error ⟨"network.allowed_domains", debug invalid, "subset of managed allowed_domains"⟩

def validateDeniedDomains (deniedDomains : List Text) (expansion : Option Bool)
    (candidate : List Text) : Except NetworkProxyConstraintError Unit := do
  validateNonGlobalWildcardDomainPatterns libs "network.denied_domains" deniedDomains
  let requiredSet := (deniedDomains.map toAsciiLowercase).eraseDups
  let candidateSet := candidate.map toAsciiLowercase
  match expansion with
  | some false =>
    if sameEntries candidateSet requiredSet then .ok ()
    else .error ⟨"network.denied_domains", debug candidate, "must match managed denied_domains"⟩
  | some true | none =>
    let missing := requiredSet.filter fun entry => entry ∉ candidateSet
    if missing = [] then .ok ()
    else .error ⟨"network.denied_domains", "missing managed denied_domains entries",
      debug missing⟩

def validateUnixSockets (allowUnixSockets candidate : List Text) :
    Except NetworkProxyConstraintError Unit :=
  let allowedSet := allowUnixSockets.map toAsciiLowercase
  let invalid := candidate.filter fun entry => toAsciiLowercase entry ∉ allowedSet
  if invalid = [] then .ok ()
  else .error ⟨"network.allow_unix_sockets", debug invalid, "subset of managed allow_unix_sockets"⟩

/-- `mitmHooks` is the outcome of `validate_mitm_hook_config`. -/
def validatePolicyAgainstConstraints (mitmHooks : Except String Unit) (config : NetworkProxyConfig)
    (constraints : NetworkProxyConstraints) : Except NetworkProxyConstraintError Unit := do
  let configAllowedDomains := config.allowedDomains.getD []
  let configDeniedDomains := config.deniedDomains.getD []
  mitmHooks.mapError fun error =>
    ⟨"network.mitm_hooks", error, "valid MITM hook configuration"⟩
  validateNonGlobalWildcardDomainPatterns libs "network.denied_domains" configDeniedDomains
  validateFlag "network.enabled" config.enabled (constraints.enabled.getD true)
  validateMode config.mode constraints.mode
  validateFlag "network.allow_upstream_proxy" config.allowUpstreamProxy
    (constraints.allowUpstreamProxy.getD true)
  validateFlag "network.dangerously_allow_non_loopback_proxy"
    config.dangerouslyAllowNonLoopbackProxy
    (constraints.dangerouslyAllowNonLoopbackProxy.getD true)
  validateFlag "network.dangerously_allow_all_unix_sockets" config.dangerouslyAllowAllUnixSockets
    (constraints.dangerouslyAllowAllUnixSockets.getD constraints.allowUnixSockets.isNone)
  validateFlag "network.allow_local_binding" config.allowLocalBinding
    (constraints.allowLocalBinding.getD true)
  constraints.allowedDomains.forM fun allowedDomains =>
    validateAllowedDomains libs debug allowedDomains constraints.allowlistExpansionEnabled
      configAllowedDomains configDeniedDomains
  constraints.deniedDomains.forM fun deniedDomains =>
    validateDeniedDomains libs debug deniedDomains constraints.denylistExpansionEnabled
      configDeniedDomains
  constraints.allowUnixSockets.forM fun allowUnixSockets =>
    validateUnixSockets debug allowUnixSockets config.allowUnixSockets

end

/-! ## The ceiling -/

/-- Every entry of a configuration that passes under a ceiling is allowed by a managed entry. -/
theorem allows_of_validated {libs : Libraries} {debug : List Text → String}
    {mitmHooks : Except String Unit} {config : NetworkProxyConfig}
    {constraints : NetworkProxyConstraints} {managed : List Text}
    (h : validatePolicyAgainstConstraints libs debug mitmHooks config constraints = .ok ())
    (hmanaged : constraints.allowedDomains = some managed)
    (hceiling : constraints.allowlistExpansionEnabled = none) :
    ∀ entry ∈ config.allowedDomains.getD [], ∃ pattern ∈ managed,
      (DomainPattern.parseForConstraints libs pattern).allows
        (DomainPattern.parseForConstraints libs entry) = true := by
  iterate 8 obtain ⟨_, _, h⟩ := bind_eq_ok_iff.mp h
  rw [hmanaged, hceiling] at h
  obtain ⟨_, hallowed, _⟩ := bind_eq_ok_iff.mp h
  obtain ⟨_, _, hallowed⟩ := bind_eq_ok_iff.mp hallowed
  simp only at hallowed
  split at hallowed
  · next hnone =>
    intro entry hentry
    have hall := List.filter_eq_nil_iff.mp hnone entry hentry
    simpa using hall
  · cases hallowed

end CodexRouter.NetworkProxy
