import CodexRouter.Lib.Table

set_option autoImplicit false

/-! # Execution policies

`execpolicy/src`: rules that say whether a command may run, and how a requirements policy is laid
over the policy of the user. A command is matched against the rules of its first token; only if
none of them matches, the first token is taken as a path and the command is matched against the
rules of its file name. A list of host executables can limit which paths a name stands for. Of
several matches the strictest decides.

Paths are those of Unix; an absolute path is its normalized list of components.
-/

namespace CodexRouter.ExecPolicy

open Lib

/-! ## Decisions -/

inductive Decision
  | allow
  | prompt
  | forbidden
  deriving DecidableEq

def Decision.severity : Decision → Nat
  | .allow => 0
  | .prompt => 1
  | .forbidden => 2

/-- The order of the declaration: allow, then prompt, then forbidden. -/
instance : LinearOrder Decision :=
  LinearOrder.lift' Decision.severity fun a b h => by cases a <;> cases b <;> first | rfl | cases h

/-! ## Rules -/

inductive PatternToken
  | single (expected : String)
  | alts (alternatives : List String)

def PatternToken.matches : PatternToken → String → Bool
  | .single expected, token => expected = token
  | .alts alternatives, token => alternatives.any (· = token)

structure PrefixPattern where
  first : String
  rest : List PatternToken

/-- The matched part of the command. -/
def PrefixPattern.matchesPrefix (pattern : PrefixPattern) (cmd : List String) :
    Option (List String) :=
  match cmd with
  | [] => none
  | program :: args =>
    if args.length < pattern.rest.length ∨ program ≠ pattern.first then none
    else if (pattern.rest.zip args).all fun (patternToken, token) => patternToken.matches token
    then some (program :: args.take pattern.rest.length)
    else none

abbrev AbsolutePath := List String

inductive RuleMatch
  | prefixRuleMatch (matchedPrefix : List String) (decision : Decision)
      (resolvedProgram : Option AbsolutePath) (justification : Option String)
  | heuristicsRuleMatch (command : List String) (decision : Decision)

namespace RuleMatch

def decision : RuleMatch → Decision
  | .prefixRuleMatch _ decision _ _ => decision
  | .heuristicsRuleMatch _ decision => decision

def withResolvedProgram (program : AbsolutePath) : RuleMatch → RuleMatch
  | .prefixRuleMatch matchedPrefix decision _ justification =>
    .prefixRuleMatch matchedPrefix decision (some program) justification
  | other => other

end RuleMatch

structure PrefixRule where
  pattern : PrefixPattern
  decision : Decision
  justification : Option String

def PrefixRule.matches (rule : PrefixRule) (cmd : List String) : Option RuleMatch :=
  (rule.pattern.matchesPrefix cmd).map fun matchedPrefix =>
    .prefixRuleMatch matchedPrefix rule.decision none rule.justification

/-! ## Paths -/

/-- The directories of the process; the current one may fail to be found. -/
structure Directories where
  home : Option AbsolutePath
  current : Option AbsolutePath

/-- Push the parts of a path, where `.` and empty parts stay and `..` goes up. -/
def pushParts (base : AbsolutePath) (parts : List String) : AbsolutePath :=
  parts.foldl (fun normalized part =>
    if part = "" ∨ part = "." then normalized
    else if part = ".." then normalized.dropLast
    else normalized ++ [part]) base

def splitSlashes (path : List Char) : List String := (path.splitOn '/').map String.ofList

/-- A path as an absolute one: `~` is the home directory, a relative path is taken from the
current directory. -/
def absolutePath (dirs : Directories) (path : String) : Option AbsolutePath :=
  let absolutize (path : List Char) : Option AbsolutePath :=
    if path.head? = some '/' then some (pushParts [] (splitSlashes path))
    else dirs.current.map fun current => pushParts current (splitSlashes path)
  match path.toList, dirs.home with
  | '~' :: [], some home => some home
  | '~' :: '/' :: rest, some home => some (pushParts home (splitSlashes rest))
  | path, _ => absolutize path

def executablePathLookupKey (path : AbsolutePath) : Option String := path.getLast?

/-! ## Policies -/

inductive NetworkRuleProtocol
  | http
  | https
  | socks5Tcp
  | socks5Udp

structure NetworkRule where
  host : String
  protocol : NetworkRuleProtocol
  decision : Decision
  justification : Option String

structure Policy where
  rulesByProgram : Table String (List PrefixRule)
  networkRules : List NetworkRule
  hostExecutablesByName : Table String (List AbsolutePath)

structure MatchOptions where
  resolveHostExecutables : Bool

namespace Policy

/-- `get_vec` of the multimap, where a program without rules has none. -/
def rulesFor (rules : Table String (List PrefixRule)) (program : String) : List PrefixRule :=
  (rules.get? program).getD []

def insertRule (program : String) (rules : Table String (List PrefixRule)) (rule : PrefixRule) :
    Table String (List PrefixRule) :=
  rules.insert program (rulesFor rules program ++ [rule])

def mergeOverlay (self overlay : Policy) : Policy where
  rulesByProgram :=
    overlay.rulesByProgram.entries.foldl
      (fun combined entry => entry.2.foldl (insertRule entry.1) combined) self.rulesByProgram
  networkRules := self.networkRules ++ overlay.networkRules
  hostExecutablesByName :=
    overlay.hostExecutablesByName.entries.foldl
      (fun combined entry => combined.insert entry.1 entry.2) self.hostExecutablesByName

def matchExactRules (p : Policy) (cmd : List String) : Option (List RuleMatch) :=
  match cmd with
  | [] => none
  | first :: _ => some ((rulesFor p.rulesByProgram first).filterMap fun rule => rule.matches cmd)

/-- The path and the file name under which the first token is looked up. -/
def hostExecutable (dirs : Directories) (cmd : List String) : Option (AbsolutePath × String) := do
  let first ← cmd.head?
  let program ← absolutePath dirs first
  let basename ← executablePathLookupKey program
  return (program, basename)

/-- The name stands for the path: there is no list for it, or the path is on it. -/
def permits (p : Policy) (program : AbsolutePath) (basename : String) : Bool :=
  match p.hostExecutablesByName.get? basename with
  | some paths => paths.any (· = program)
  | none => true

def matchHostExecutableRules (dirs : Directories) (p : Policy) (cmd : List String) :
    List RuleMatch :=
  match hostExecutable dirs cmd with
  | none => []
  | some (program, basename) =>
    if p.permits program basename then
      ((rulesFor p.rulesByProgram basename).filterMap fun rule =>
        rule.matches (basename :: cmd.drop 1)).map (RuleMatch.withResolvedProgram program)
    else []

def matchesForCommandWithOptions (dirs : Directories) (p : Policy) (cmd : List String)
    (heuristicsFallback : Option (List String → Decision)) (options : MatchOptions) :
    List RuleMatch :=
  let nonEmpty (matchedRules : List RuleMatch) : Bool := !matchedRules.isEmpty
  let matchedRules :=
    (((p.matchExactRules cmd).filter nonEmpty).or
      ((if options.resolveHostExecutables then some (p.matchHostExecutableRules dirs cmd)
        else none).filter nonEmpty)).getD []
  match matchedRules, heuristicsFallback with
  | [], some fallback => [.heuristicsRuleMatch cmd (fallback cmd)]
  | matchedRules, _ => matchedRules

/-- The decision of an evaluation: the strictest of its matches. -/
def decisionOf (matchedRules : List RuleMatch) : Option Decision :=
  (matchedRules.map RuleMatch.decision).max?

/-- What the rules say about a command, with host executables resolved. -/
def ruleDecision (dirs : Directories) (p : Policy) (cmd : List String) : Option Decision :=
  decisionOf (p.matchesForCommandWithOptions dirs cmd none ⟨true⟩)

/-! ## The rules of a merged policy -/

theorem rulesFor_insertRule (rules : Table String (List PrefixRule)) (program p : String)
    (rule : PrefixRule) :
    rulesFor (insertRule program rules rule) p
      = if p = program then rulesFor rules p ++ [rule] else rulesFor rules p := by
  simp only [rulesFor, insertRule, Table.get?_insert]
  split
  · next h => subst h; rfl
  · rfl

theorem rulesFor_foldl_insertRule (program p : String) (new : List PrefixRule)
    (rules : Table String (List PrefixRule)) :
    rulesFor (new.foldl (insertRule program) rules) p
      = if p = program then rulesFor rules p ++ new else rulesFor rules p := by
  induction new generalizing rules with
  | nil => simp
  | cons rule new ih =>
    rw [List.foldl_cons, ih, rulesFor_insertRule]
    split <;> simp

/-- A key that does not come in the entries is not found there. -/
theorem find?_key_eq_none {V : Type} {entries : List (String × V)} {key : String}
    (h : key ∉ entries.map Prod.fst) :
    entries.find? (fun entry => decide (entry.1 = key)) = none := by
  refine List.find?_eq_none.mpr fun entry hentry => ?_
  rw [decide_eq_true_eq]
  exact fun heq => h (heq ▸ List.mem_map_of_mem hentry)

/-- The rules that a list of entries has for a program. -/
def entryRules (entries : List (String × List PrefixRule)) (p : String) : List PrefixRule :=
  ((entries.find? fun entry => entry.1 = p).map Prod.snd).getD []

theorem rulesFor_foldl_entries (p : String) (entries : List (String × List PrefixRule))
    (hnodup : (entries.map Prod.fst).Nodup) (rules : Table String (List PrefixRule)) :
    rulesFor (entries.foldl
        (fun combined entry => entry.2.foldl (insertRule entry.1) combined) rules) p
      = rulesFor rules p ++ entryRules entries p := by
  induction entries generalizing rules with
  | nil => simp [entryRules]
  | cons entry entries ih =>
    rw [List.map_cons, List.nodup_cons] at hnodup
    rw [List.foldl_cons, ih hnodup.2, rulesFor_foldl_insertRule]
    by_cases hp : p = entry.1
    · subst hp
      -- the key does not come again
      simp [entryRules, find?_key_eq_none hnodup.1]
    · rw [if_neg hp]
      simp [entryRules, Ne.symm hp]

/-- A merged policy has the rules of both. -/
theorem rulesFor_mergeOverlay (self overlay : Policy) (p : String) :
    rulesFor (self.mergeOverlay overlay).rulesByProgram p
      = rulesFor self.rulesByProgram p ++ rulesFor overlay.rulesByProgram p :=
  rulesFor_foldl_entries p _ overlay.rulesByProgram.nodup self.rulesByProgram

theorem get?_foldl_insert (name : String) (entries : List (String × List AbsolutePath))
    (hnodup : (entries.map Prod.fst).Nodup) (lists : Table String (List AbsolutePath)) :
    (entries.foldl (fun combined entry => combined.insert entry.1 entry.2) lists).get? name
      = ((entries.find? fun entry => entry.1 = name).map Prod.snd).or (lists.get? name) := by
  induction entries generalizing lists with
  | nil => simp
  | cons entry entries ih =>
    rw [List.map_cons, List.nodup_cons] at hnodup
    rw [List.foldl_cons, ih hnodup.2, Table.get?_insert]
    by_cases hname : name = entry.1
    · subst hname
      simp [find?_key_eq_none hnodup.1]
    · simp [hname, Ne.symm hname]

/-- A list of the overlay replaces the one of the same name. -/
theorem hostExecutables_mergeOverlay (self overlay : Policy) (name : String) :
    (self.mergeOverlay overlay).hostExecutablesByName.get? name
      = (overlay.hostExecutablesByName.get? name).or (self.hostExecutablesByName.get? name) :=
  get?_foldl_insert name _ overlay.hostExecutablesByName.nodup self.hostExecutablesByName

/-! ## Matches of a merged policy -/

/-- The matches by the first token itself. -/
def exactMatches (p : Policy) (cmd : List String) : List RuleMatch :=
  (p.matchExactRules cmd).getD []

/-- Without a fallback: the matches by the first token, or else those by the file name. -/
theorem matches_eq (dirs : Directories) (p : Policy) (cmd : List String) :
    p.matchesForCommandWithOptions dirs cmd none ⟨true⟩
      = if p.exactMatches cmd = [] then p.matchHostExecutableRules dirs cmd
        else p.exactMatches cmd := by
  unfold matchesForCommandWithOptions exactMatches
  cases hexact : p.matchExactRules cmd with
  | none => cases p.matchHostExecutableRules dirs cmd <;> simp [Option.filter]
  | some exact => grind

theorem exactMatches_mergeOverlay (self overlay : Policy) (cmd : List String) :
    (self.mergeOverlay overlay).exactMatches cmd
      = self.exactMatches cmd ++ overlay.exactMatches cmd := by
  cases cmd with
  | nil => rfl
  | cons first args =>
    simp only [exactMatches, matchExactRules, rulesFor_mergeOverlay, List.filterMap_append,
      Option.getD_some]

/-- A path that the merged policy permits has the matches by its file name of both. -/
theorem mem_hostMatches_mergeOverlay {dirs : Directories} {self overlay : Policy}
    {cmd : List String} {program : AbsolutePath} {basename : String} {m : RuleMatch}
    (hhost : hostExecutable dirs cmd = some (program, basename))
    (hmerged : (self.mergeOverlay overlay).permits program basename = true)
    (hm : m ∈ overlay.matchHostExecutableRules dirs cmd) :
    m ∈ (self.mergeOverlay overlay).matchHostExecutableRules dirs cmd := by
  simp only [matchHostExecutableRules, hhost, hmerged, if_true] at hm ⊢
  split at hm
  · rw [rulesFor_mergeOverlay, List.filterMap_append, List.map_append]
    exact List.mem_append_right _ hm
  · cases hm

/-- The merged policy permits a path by the list of the overlay, or else by that of the user. -/
theorem permits_mergeOverlay (self overlay : Policy) (program : AbsolutePath)
    (basename : String) :
    (self.mergeOverlay overlay).permits program basename
      = if (overlay.hostExecutablesByName.get? basename).isSome
        then overlay.permits program basename else self.permits program basename := by
  unfold permits
  rw [hostExecutables_mergeOverlay]
  cases overlay.hostExecutablesByName.get? basename <;> rfl

/-! ## The strictest decision -/

theorem le_decisionOf_iff (matchedRules : List RuleMatch) (d : Decision) :
    (∃ d', decisionOf matchedRules = some d' ∧ d ≤ d') ↔ ∃ m ∈ matchedRules, d ≤ m.decision := by
  constructor
  · rintro ⟨d', hd', hle⟩
    obtain ⟨hmem, _⟩ := List.max?_eq_some_iff.mp hd'
    obtain ⟨m, hm, rfl⟩ := List.mem_map.mp hmem
    exact ⟨m, hm, hle⟩
  · rintro ⟨m, hm, hle⟩
    have hmem : m.decision ∈ matchedRules.map RuleMatch.decision := List.mem_map_of_mem hm
    cases hd' : decisionOf matchedRules with
    | none =>
      rw [decisionOf, List.max?_eq_none_iff] at hd'
      rw [hd'] at hmem
      cases hmem
    | some d' => exact ⟨d', rfl, hle.trans ((List.max?_eq_some_iff.mp hd').2 _ hmem)⟩

/-! ## Requirements over a user policy -/

/-- The user policy does not stand before a requirement that decides `d`. If the requirement does
not match by the first token itself, then the user's rules for that token, which would be the only
ones to count, decide as strictly; and if there are none of them, the user has no list that keeps
the path from its file name, or the requirements have a list of their own for it. -/
def NotInTheWay (dirs : Directories) (user requirements : Policy) (cmd : List String)
    (d : Decision) : Prop :=
  requirements.exactMatches cmd ≠ [] ∨
  (∃ m ∈ user.exactMatches cmd, d ≤ m.decision) ∨
  (user.exactMatches cmd = [] ∧ ∀ program basename,
    hostExecutable dirs cmd = some (program, basename) →
      (requirements.hostExecutablesByName.get? basename).isSome = true ∨
        user.permits program basename = true)

theorem exists_host_of_mem {dirs : Directories} {p : Policy} {cmd : List String} {m : RuleMatch}
    (hm : m ∈ p.matchHostExecutableRules dirs cmd) :
    ∃ program basename, hostExecutable dirs cmd = some (program, basename) ∧
      p.permits program basename = true := by
  unfold matchHostExecutableRules at hm
  split at hm
  · cases hm
  · next program basename hhost => grind

/-- **A requirement keeps its force under a user policy exactly if the user policy is not in its
way.** -/
theorem requirement_kept_iff (dirs : Directories) (user requirements : Policy)
    (cmd : List String) (d : Decision) (hd : requirements.ruleDecision dirs cmd = some d) :
    (∃ d', (user.mergeOverlay requirements).ruleDecision dirs cmd = some d' ∧ d ≤ d')
      ↔ NotInTheWay dirs user requirements cmd d := by
  unfold ruleDecision at hd ⊢
  rw [le_decisionOf_iff, matches_eq, exactMatches_mergeOverlay]
  obtain ⟨m, hm, hdm⟩ := (le_decisionOf_iff _ d).mp ⟨d, hd, le_rfl⟩
  rw [matches_eq] at hm
  by_cases hreq : requirements.exactMatches cmd = []
  · rw [if_pos hreq] at hm
    obtain ⟨program, basename, hhost, hpermits⟩ := exists_host_of_mem hm
    by_cases huser : user.exactMatches cmd = []
    · -- the file name decides, if the merged policy lets the path stand for it
      rw [huser, hreq, List.append_nil, if_pos rfl]
      have hmerged := permits_mergeOverlay user requirements program basename
      constructor
      · grind [exists_host_of_mem, NotInTheWay]
      · rintro (h | ⟨m', hm', _⟩ | ⟨_, hlist⟩)
        · exact absurd hreq h
        · rw [huser] at hm'
          cases hm'
        · have hall : (user.mergeOverlay requirements).permits program basename = true := by grind
          exact ⟨m, mem_hostMatches_mergeOverlay hhost hall hm, hdm⟩
    · -- the user's rules for the token are the only ones that count
      have hne : user.exactMatches cmd ++ requirements.exactMatches cmd ≠ [] := by simp [huser]
      rw [if_neg hne, hreq, List.append_nil]
      constructor
      · exact fun h => Or.inr (Or.inl h)
      · grind [NotInTheWay]
  · -- the requirement matches by the token itself, and so does the merged policy
    rw [if_neg hreq] at hm
    have hne : user.exactMatches cmd ++ requirements.exactMatches cmd ≠ [] := by simp [hreq]
    rw [if_neg hne]
    exact iff_of_true ⟨m, List.mem_append_right _ hm, hdm⟩ (Or.inl hreq)

/-! ## A rule of the user that stands before a requirement -/

/-- A policy with one rule for a program, whatever its arguments. -/
def oneRule (program : String) (decision : Decision) : Policy where
  rulesByProgram := Table.empty.insert program [⟨⟨program, []⟩, decision, none⟩]
  networkRules := []
  hostExecutablesByName := Table.empty

def rootDirectories : Directories := ⟨none, some []⟩

/-- A requirement on `git` keeps its force under a user rule on `ls`. -/
theorem requirement_kept_iff_otherProgram :
    ∃ d', ((oneRule "ls" .allow).mergeOverlay (oneRule "git" .forbidden)).ruleDecision
      rootDirectories ["/usr/bin/git", "push"] = some d' ∧ .forbidden ≤ d' := by
  refine (requirement_kept_iff rootDirectories _ _ _ _ (by decide)).mpr ?_
  refine Or.inr (Or.inr ⟨by decide, fun program basename _ => Or.inr rfl⟩)

/-- **A user rule weakens a requirement.** The requirements forbid `git`; the user allows
`/usr/bin/git`, and that rule alone decides the command. -/
theorem user_rule_weakens_requirement :
    (oneRule "git" .forbidden).ruleDecision rootDirectories ["/usr/bin/git", "push"]
      = some .forbidden ∧
    ((oneRule "/usr/bin/git" .allow).mergeOverlay (oneRule "git" .forbidden)).ruleDecision
      rootDirectories ["/usr/bin/git", "push"] = some .allow := by
  decide

end Policy

end CodexRouter.ExecPolicy
