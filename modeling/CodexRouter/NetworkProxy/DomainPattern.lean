import Mathlib.Tactic
import CodexRouter.Lib.Chars

set_option autoImplicit false

/-! # Domain patterns of the network proxy

An allowlist entry is a domain, `*.` and a domain (its subdomains) or `**.` and a domain (the
domain and its subdomains). The text of an entry is read twice: `compileGlobsetWithPolicy` makes
globs of it, which decide about hosts, and `parseForConstraints` reads it again to compare an
allowlist with a managed one.
-/

namespace CodexRouter.NetworkProxy

open Lib (trim)

abbrev Text := List Char

/-- What the code takes from libraries: whether a text parses as an `IpAddr`, `Host::parse` of the
`url` crate, and the globs of the `globset` crate, case-insensitive. -/
structure Libraries where
  isIpAddr : Text → Bool
  urlHostParse : Text → Option Text
  buildGlob : Text → Option (Text → Bool)

/-! ## Text -/

def toAsciiLowercase (text : Text) : Text := text.map Char.toLower

def trimEndDots (text : Text) : Text := text.rdropWhile (· = '.')

/-- The text before and after the first occurrence of a delimiter. -/
def splitOnce (delimiter text : Text) : Option (Text × Text) :=
  match text with
  | [] => if delimiter = [] then some ([], []) else none
  | c :: rest =>
    if delimiter <+: c :: rest then some ([], (c :: rest).drop delimiter.length)
    else (splitOnce delimiter rest).map fun parts => (c :: parts.1, parts.2)

def stripPrefix (first text : Text) : Option Text :=
  if first <+: text then some (text.drop first.length) else none

/-! ## Normalization for the compiler -/

section

variable (libs : Libraries)

def normalizeIpLiteral (host : Text) : Option Text :=
  if libs.isIpAddr host then some host
  else [['%', '2', '5'], ['%']].findSome? fun delimiter =>
    match splitOnce delimiter host with
    | some (ip, scope) => if libs.isIpAddr ip then some (ip ++ '%' :: scope) else none
    | none => none

def normalizeDnsHostOrIpLiteral (host : Text) : Text :=
  let host := trimEndDots (toAsciiLowercase host)
  (normalizeIpLiteral libs host).getD host

/-- Trim blanks, strip brackets or a port, and lowercase. -/
def normalizeHost (host : Text) : Text :=
  let host := trim host
  if host.head? = some '[' ∧ ']' ∈ host then
    normalizeDnsHostOrIpLiteral libs (host.tail.takeWhile (· ≠ ']'))
  else if host.count ':' = 1 then
    normalizeDnsHostOrIpLiteral libs (host.takeWhile (· ≠ ':'))
  else normalizeDnsHostOrIpLiteral libs host

def normalizePattern (pattern : Text) : Text :=
  let pattern := trim pattern
  if pattern = ['*'] then ['*']
  else match stripPrefix ['*', '*', '.'] pattern with
    | some domain => ['*', '*', '.'] ++ normalizeHost libs domain
    | none =>
      match stripPrefix ['*', '.'] pattern with
      | some domain => ['*', '.'] ++ normalizeHost libs domain
      | none => normalizeHost libs pattern

end

/-! ## Patterns -/

inductive DomainPattern
  | apexAndSubdomains (domain : Text)
  | subdomainsOnly (domain : Text)
  | exact (domain : Text)
deriving DecidableEq

namespace DomainPattern

def parseDomain (domain : Text) (build : Text → DomainPattern) : DomainPattern :=
  let domain := trim domain
  if domain = [] then .exact [] else build domain

def parse (input : Text) : DomainPattern :=
  let input := trim input
  if input = [] then .exact []
  else match stripPrefix ['*', '*', '.'] input with
    | some domain => parseDomain domain .apexAndSubdomains
    | none =>
      match stripPrefix ['*', '.'] input with
      | some domain => parseDomain domain .subdomainsOnly
      | none => .exact input

end DomainPattern

/-- The domain of an entry, as the check against managed entries reads it: what the `url` crate
does not accept is read as the empty domain. -/
def parseDomainForConstraints (libs : Libraries) (domain : Text) : Text :=
  let domain := trimEndDots (trim domain)
  if domain = [] then []
  else
    let host := if domain.head? = some '[' ∧ domain.getLast? = some ']' then
      domain.tail.dropLast else domain
    if '*' ∈ host ∨ '?' ∈ host ∨ '%' ∈ host then domain
    else (libs.urlHostParse host).getD []

def DomainPattern.parseForConstraints (libs : Libraries) (input : Text) : DomainPattern :=
  let input := trim input
  if input = [] then .exact []
  else match stripPrefix ['*', '*', '.'] input with
    | some domain => .apexAndSubdomains (parseDomainForConstraints libs domain)
    | none =>
      match stripPrefix ['*', '.'] input with
      | some domain => .subdomainsOnly (parseDomainForConstraints libs domain)
      | none => .exact (parseDomainForConstraints libs input)

/-! ## Comparing domains -/

def normalizeDomain (domain : Text) : Text := toAsciiLowercase (trimEndDots domain)

def domainEq (left right : Text) : Bool := normalizeDomain left = normalizeDomain right

def isSubdomainOrEqual (child parent : Text) : Bool :=
  normalizeDomain child = normalizeDomain parent
    || ('.' :: normalizeDomain parent).isSuffixOf (normalizeDomain child)

def isStrictSubdomain (child parent : Text) : Bool :=
  normalizeDomain child ≠ normalizeDomain parent
    && ('.' :: normalizeDomain parent).isSuffixOf (normalizeDomain child)

namespace DomainPattern

def allows : DomainPattern → DomainPattern → Bool
  | .exact domain, .exact candidate => domainEq candidate domain
  | .exact _, _ => false
  | .subdomainsOnly domain, .exact candidate => isStrictSubdomain candidate domain
  | .subdomainsOnly domain, .subdomainsOnly candidate => isSubdomainOrEqual candidate domain
  | .subdomainsOnly domain, .apexAndSubdomains candidate => isStrictSubdomain candidate domain
  | .apexAndSubdomains domain, .exact candidate => isSubdomainOrEqual candidate domain
  | .apexAndSubdomains domain, .subdomainsOnly candidate => isSubdomainOrEqual candidate domain
  | .apexAndSubdomains domain, .apexAndSubdomains candidate => isSubdomainOrEqual candidate domain

/-- The globs of a pattern. -/
def candidates : DomainPattern → List Text
  | .exact domain => [domain]
  | .subdomainsOnly domain => [['?', '*', '.'] ++ domain]
  | .apexAndSubdomains domain => [domain, ['?', '*', '.'] ++ domain]

end DomainPattern

def expandDomainPattern (pattern : Text) : List Text := (DomainPattern.parse pattern).candidates

/-! ## Compiling -/

section

variable (libs : Libraries)

def isGlobalWildcardDomainPattern (pattern : Text) : Bool :=
  (expandDomainPattern (normalizePattern libs pattern)).any (· = ['*'])

inductive GlobalWildcard
  | allow
  | reject
deriving DecidableEq

/-- A compiled glob set: the matchers of its globs. -/
abbrev GlobSet := List (Text → Bool)

def GlobSet.isMatch (set : GlobSet) (host : Text) : Bool := set.any fun matcher => matcher host

/-- The globs of one entry. -/
def entryCandidates (pattern : Text) : List Text :=
  expandDomainPattern (normalizePattern libs pattern)

def globalWildcardMessage : String :=
  "unsupported global wildcard domain pattern \"*\"; use exact hosts or scoped wildcards like "
    ++ "*.example.com or **.example.com"

/-- Add the globs of one entry, each text once. -/
def addCandidates (seen : List Text) (set : GlobSet) :
    List Text → Except String (List Text × GlobSet)
  | [] => .ok (seen, set)
  | candidate :: rest =>
    if candidate ∈ seen then addCandidates seen set rest
    else match libs.buildGlob candidate with
      | none => .error ("invalid glob pattern: " ++ String.ofList candidate)
      | some matcher => addCandidates (candidate :: seen) (set ++ [matcher]) rest

def compileGlobsetFrom (globalWildcard : GlobalWildcard) (seen : List Text) (set : GlobSet) :
    List Text → Except String GlobSet
  | [] => .ok set
  | pattern :: rest =>
    if globalWildcard = .reject && isGlobalWildcardDomainPattern libs pattern then
      .error globalWildcardMessage
    else match addCandidates libs seen set (entryCandidates libs pattern) with
      | .error error => .error error
      | .ok (seen, set) => compileGlobsetFrom globalWildcard seen set rest

def compileGlobsetWithPolicy (patterns : List Text) (globalWildcard : GlobalWildcard) :
    Except String GlobSet :=
  compileGlobsetFrom libs globalWildcard [] [] patterns

def compileAllowlistGlobset (patterns : List Text) : Except String GlobSet :=
  compileGlobsetWithPolicy libs patterns .allow

end

/-! ## What a compiled set matches -/

section

variable {libs : Libraries} {globalWildcard : GlobalWildcard}

/-- The matchers of a set are those of some globs. -/
def Built (libs : Libraries) (seen : List Text) (set : GlobSet) : Prop :=
  (∀ text ∈ seen, ∃ matcher ∈ set, libs.buildGlob text = some matcher)
    ∧ ∀ matcher ∈ set, ∃ text ∈ seen, libs.buildGlob text = some matcher

theorem addCandidates_spec {candidates seen seen' : List Text} {set set' : GlobSet}
    (h : addCandidates libs seen set candidates = .ok (seen', set'))
    (hbuilt : Built libs seen set) :
    Built libs seen' set' ∧ ∀ text, text ∈ seen' ↔ text ∈ seen ∨ text ∈ candidates := by
  induction candidates generalizing seen set with
  | nil =>
    cases h
    exact ⟨hbuilt, fun text => by simp⟩
  | cons candidate rest ih =>
    unfold addCandidates at h
    split at h
    · next hmem => grind
    · cases hmade : libs.buildGlob candidate with
      | none => simp [hmade] at h
      | some matcher =>
        simp only [hmade] at h
        have hadded : Built libs (candidate :: seen) (set ++ [matcher]) := by
          obtain ⟨hseen, hset⟩ := hbuilt
          constructor
          · grind
          · grind
        obtain ⟨hbuilt', hiff⟩ := ih h hadded
        exact ⟨hbuilt', fun text => by rw [hiff]; grind⟩

/-- The matchers of a compiled set are those of the globs of its entries. -/
theorem compileGlobsetFrom_spec {patterns seen : List Text} {set set' : GlobSet}
    (h : compileGlobsetFrom libs globalWildcard seen set patterns = .ok set')
    (hbuilt : Built libs seen set) :
    ∃ seen', Built libs seen' set' ∧ ∀ text, text ∈ seen'
      ↔ text ∈ seen ∨ ∃ pattern ∈ patterns, text ∈ entryCandidates libs pattern := by
  induction patterns generalizing seen set with
  | nil =>
    cases h
    exact ⟨seen, hbuilt, fun text => by simp⟩
  | cons pattern rest ih =>
    unfold compileGlobsetFrom at h
    split at h
    · cases h
    · split at h
      · cases h
      · next seen' set'' hadd =>
        obtain ⟨hbuilt', hiff⟩ := addCandidates_spec hadd hbuilt
        obtain ⟨last, hlast, hiff'⟩ := ih h hbuilt'
        refine ⟨last, hlast, fun text => ?_⟩
        rw [hiff', hiff, List.exists_mem_cons_iff, or_assoc]

/-- A compiled allowlist accepts what one of the globs of its entries matches, and all of these
globs can be built. -/
theorem isMatch_compileAllowlistGlobset {patterns : List Text} {set : GlobSet}
    (h : compileAllowlistGlobset libs patterns = .ok set) :
    (∀ pattern ∈ patterns, ∀ text ∈ entryCandidates libs pattern,
        (libs.buildGlob text).isSome = true)
      ∧ ∀ host, set.isMatch host = true ↔ ∃ pattern ∈ patterns,
        ∃ text ∈ entryCandidates libs pattern, ∃ matcher ∈ libs.buildGlob text,
          matcher host = true := by
  obtain ⟨seen, ⟨hbuilt, hfrom⟩, hseen⟩ :=
    compileGlobsetFrom_spec h (show Built libs [] [] by simp [Built])
  simp only [hseen, List.not_mem_nil, false_or] at hbuilt hfrom
  constructor
  · intro pattern hpattern text htext
    obtain ⟨matcher, _, hmatcher⟩ := hbuilt text ⟨pattern, hpattern, htext⟩
    rw [hmatcher]
    rfl
  · intro host
    unfold GlobSet.isMatch
    rw [List.any_eq_true]
    constructor
    · rintro ⟨matcher, hmatcher, hhost⟩
      obtain ⟨text, ⟨pattern, hpattern, htext⟩, hmade⟩ := hfrom matcher hmatcher
      exact ⟨pattern, hpattern, text, htext, matcher, hmade, hhost⟩
    · rintro ⟨pattern, hpattern, text, htext, matcher, hmade, hhost⟩
      obtain ⟨other, hother, hmade'⟩ := hbuilt text ⟨pattern, hpattern, htext⟩
      have hsame : some matcher = some other := hmade.symm.trans hmade'
      cases hsame
      exact ⟨matcher, hother, hhost⟩

end

end CodexRouter.NetworkProxy
