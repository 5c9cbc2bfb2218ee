import CodexRouter.Lib.Glob
import CodexRouter.NetworkProxy.Constraints

set_option autoImplicit false

/-! # A fixed allowlist as a ceiling

The check of a configuration against a managed allowlist compares domains; what is in force are
globs. The two agree on an entry if the domain that the check reads, in lower case and without
dots at the end, is the one that the globs are made of.
-/

namespace CodexRouter.NetworkProxy

open Lib

/-! ## Globs -/

/-- Letters, digits, `-`, `.` and `:`. -/
def isPlain (c : Char) : Bool := c.isAlphanum || c = '-' || c = '.' || c = ':'

def globItem (c : Char) : GlobItem Char :=
  if c = '*' then .anyText else if c = '?' then .anyOne else .literal c

def IsGlobText (text : Text) : Prop := ∀ c ∈ text, isPlain c = true ∨ c = '*' ∨ c = '?'

/-- What is known of the `globset` crate: `*` matches any text, `?` any character, and a plain
character itself without regard to case. -/
def BuildsGlobs (libs : Libraries) : Prop :=
  ∀ text, IsGlobText text → ∃ matcher, libs.buildGlob text = some matcher
    ∧ ∀ host, matcher host = globMatches Char.toLower (text.map globItem) host

/-! ## Reading an entry -/

namespace DomainPattern

def domain : DomainPattern → Text
  | .apexAndSubdomains domain | .subdomainsOnly domain | .exact domain => domain

/-- The pattern with its domain as the check compares it. -/
def normalized : DomainPattern → DomainPattern
  | .apexAndSubdomains domain => .apexAndSubdomains (normalizeDomain domain)
  | .subdomainsOnly domain => .subdomainsOnly (normalizeDomain domain)
  | .exact domain => .exact (normalizeDomain domain)

end DomainPattern

/-- The pattern that the globs of an entry are made of. -/
def compiledPattern (libs : Libraries) (entry : Text) : DomainPattern :=
  DomainPattern.parse (normalizePattern libs entry)

/-- The check and the compiler read the same pattern. -/
def ReadAlike (libs : Libraries) (entry : Text) : Prop :=
  (DomainPattern.parseForConstraints libs entry).normalized = compiledPattern libs entry

/-- A domain of plain characters that does not start with a dot. -/
structure IsName (domain : Text) : Prop where
  plain : ∀ c ∈ domain, isPlain c = true
  head : domain.head? ≠ some '.'

/-- A glob lies below another one: it is the same, or it names subdomains of its domain. -/
def Below (wide narrow : Text) : Prop :=
  narrow = wide ∨ ∃ front domain, wide = ['?', '*', '.'] ++ domain
    ∧ narrow = front ++ '.' :: domain ∧ (∃ c ∈ front, c ≠ '*') ∧ IsGlobText narrow

/-- Every glob of an entry lies below one of a managed entry. -/
def Covered (libs : Libraries) (managed : List Text) (entry : Text) : Prop :=
  ∀ narrow ∈ entryCandidates libs entry, ∃ pattern ∈ managed,
    ∃ wide ∈ entryCandidates libs pattern, Below wide narrow

/-- An entry is a name that is read alike, and so are the managed entries that allow it. -/
structure WellRead (libs : Libraries) (managed : List Text) (entry : Text) : Prop where
  alike : ReadAlike libs entry
  name : IsName (compiledPattern libs entry).domain
  managed : ∀ pattern ∈ managed, (DomainPattern.parseForConstraints libs pattern).allows
    (DomainPattern.parseForConstraints libs entry) = true → ReadAlike libs pattern

/-! ## A glob below another one -/

section

variable {libs : Libraries} {wide narrow domain : Text}

theorem IsName.isGlobText (h : IsName domain) : IsGlobText domain := fun c hc =>
  Or.inl (h.plain c hc)

theorem isGlobText_subdomains (h : IsGlobText domain) :
    IsGlobText (['?', '*', '.'] ++ domain) :=
  List.forall_mem_append.mpr ⟨by simp [isPlain], h⟩

/-- The globs of subdomains of a domain, in terms of matching. -/
theorem globMatches_subdomains {host : Text} :
    globMatches Char.toLower ((['?', '*', '.'] ++ domain).map globItem) host = true
      ↔ ∃ front back, host = front ++ back ∧ front ≠ []
        ∧ globMatches Char.toLower (('.' :: domain).map globItem) back = true := by
  have hitems : (['?', '*', '.'] ++ domain).map globItem
      = [.anyOne, .anyText] ++ ('.' :: domain).map globItem := rfl
  rw [hitems, globMatches_append]
  simp only [globMatches_nonempty]

/-- A glob below another one matches less. -/
theorem Below.matches (hglobs : BuildsGlobs libs) (h : Below wide narrow)
    {matcher : Text → Bool} (hmatcher : libs.buildGlob narrow = some matcher) {host : Text}
    (hhost : matcher host = true) :
    ∃ other ∈ libs.buildGlob wide, other host = true := by
  rcases h with rfl | ⟨front, domain, rfl, rfl, ⟨c, hc, hstar⟩, htext⟩
  · exact ⟨matcher, hmatcher, hhost⟩
  · have hdomain : IsGlobText domain := fun c hc =>
      htext c (List.mem_append_right _ (List.mem_cons_of_mem _ hc))
    obtain ⟨other, hother, hmatches⟩ := hglobs _ (isGlobText_subdomains hdomain)
    obtain ⟨matcher', hmatcher', hmatches'⟩ := hglobs _ htext
    have hsame : some matcher = some matcher' := hmatcher.symm.trans hmatcher'
    cases hsame
    rw [hmatches', List.map_append, globMatches_append] at hhost
    obtain ⟨before, after, rfl, hbefore, hafter⟩ := hhost
    have hne : before ≠ [] := by
      refine ne_nil_of_globMatches hbefore ⟨globItem c, List.mem_map_of_mem hc, ?_⟩
      unfold globItem
      rw [if_neg hstar]
      split <;> simp
    refine ⟨other, hother, ?_⟩
    rw [hmatches, globMatches_subdomains]
    exact ⟨before, after, rfl, hne, hafter⟩

/-! ## What the check allows is below -/

theorem below_of_front {front : Text} (hne : front ≠ [])
    (hplain : ∀ c ∈ front ++ '.' :: domain, isPlain c = true) :
    Below (['?', '*', '.'] ++ domain) (front ++ '.' :: domain) := by
  refine Or.inr ⟨front, domain, rfl, rfl, ?_, fun c hc => Or.inl (hplain c hc)⟩
  obtain ⟨c, hc⟩ := List.exists_mem_of_ne_nil front hne
  refine ⟨c, hc, ?_⟩
  rintro rfl
  exact absurd (hplain '*' (List.mem_append_left _ hc)) (by decide)

theorem below_of_subdomain (h : ('.' :: domain) <:+ narrow) (hname : IsName narrow) :
    Below (['?', '*', '.'] ++ domain) narrow := by
  obtain ⟨front, rfl⟩ := h
  refine below_of_front ?_ hname.plain
  rintro rfl
  exact hname.head rfl

theorem subdomains_below_of_subdomain (h : ('.' :: domain) <:+ narrow)
    (htext : IsGlobText narrow) :
    Below (['?', '*', '.'] ++ domain) (['?', '*', '.'] ++ narrow) := by
  obtain ⟨front, rfl⟩ := h
  refine Or.inr ⟨['?', '*', '.'] ++ front, domain, rfl, by simp, ⟨'?', by simp, by decide⟩, ?_⟩
  exact isGlobText_subdomains htext

theorem of_isSubdomainOrEqual {child parent : Text} (h : isSubdomainOrEqual child parent = true) :
    normalizeDomain child = normalizeDomain parent
      ∨ ('.' :: normalizeDomain parent) <:+ normalizeDomain child := by
  simpa [isSubdomainOrEqual, List.isSuffixOf_iff_suffix] using h

theorem of_isStrictSubdomain {child parent : Text} (h : isStrictSubdomain child parent = true) :
    ('.' :: normalizeDomain parent) <:+ normalizeDomain child := by
  simp only [isStrictSubdomain, Bool.and_eq_true, List.isSuffixOf_iff_suffix] at h
  exact h.2

theorem subdomains_below {child parent : Text} (h : isSubdomainOrEqual child parent = true)
    (hname : IsName (normalizeDomain child)) :
    Below (['?', '*', '.'] ++ normalizeDomain parent)
      (['?', '*', '.'] ++ normalizeDomain child) := by
  rcases of_isSubdomainOrEqual h with hsame | hsuffix
  · exact Or.inl (by rw [hsame])
  · exact subdomains_below_of_subdomain hsuffix hname.isGlobText

/-- What a pattern allows lies below it. -/
theorem below_of_allows {wide narrow : DomainPattern} (h : wide.allows narrow = true)
    (hname : IsName narrow.normalized.domain) :
    ∀ text ∈ narrow.normalized.candidates, ∃ other ∈ wide.normalized.candidates,
      Below other text := by
  cases wide with
  | exact parent =>
    cases narrow with
    | exact child =>
      have hsame : normalizeDomain child = normalizeDomain parent := of_decide_eq_true h
      intro text htext
      obtain rfl := List.mem_singleton.mp htext
      exact ⟨_, List.mem_singleton.mpr rfl, Or.inl hsame⟩
    | _ => cases h
  | subdomainsOnly parent =>
    intro text htext
    refine ⟨_, List.mem_singleton.mpr rfl, ?_⟩
    cases narrow with
    | exact child =>
      obtain rfl := List.mem_singleton.mp htext
      exact below_of_subdomain (of_isStrictSubdomain h) hname
    | subdomainsOnly child =>
      obtain rfl := List.mem_singleton.mp htext
      exact subdomains_below h hname
    | apexAndSubdomains child =>
      rcases List.mem_pair.mp htext with rfl | rfl
      · exact below_of_subdomain (of_isStrictSubdomain h) hname
      · exact subdomains_below_of_subdomain (of_isStrictSubdomain h) hname.isGlobText
  | apexAndSubdomains parent =>
    -- the domain itself lies below the domain or below its subdomains
    have hapex : ∀ child, isSubdomainOrEqual child parent = true →
        IsName (normalizeDomain child) → ∃ other ∈
          (DomainPattern.apexAndSubdomains parent).normalized.candidates,
            Below other (normalizeDomain child) := by
      intro child hchild hname
      rcases of_isSubdomainOrEqual hchild with hsame | hsuffix
      · exact ⟨_, List.mem_cons_self, Or.inl hsame⟩
      · exact ⟨_, List.mem_cons_of_mem _ List.mem_cons_self, below_of_subdomain hsuffix hname⟩
    intro text htext
    cases narrow with
    | exact child =>
      obtain rfl := List.mem_singleton.mp htext
      exact hapex child h hname
    | subdomainsOnly child =>
      obtain rfl := List.mem_singleton.mp htext
      exact ⟨_, List.mem_cons_of_mem _ List.mem_cons_self, subdomains_below h hname⟩
    | apexAndSubdomains child =>
      rcases List.mem_pair.mp htext with rfl | rfl
      · exact hapex child h hname
      · exact ⟨_, List.mem_cons_of_mem _ List.mem_cons_self, subdomains_below h hname⟩

/-- An entry that is read alike is covered by a managed entry that allows it. -/
theorem WellRead.covered {managed : List Text} {entry pattern : Text}
    (h : WellRead libs managed entry) (hpattern : pattern ∈ managed)
    (hallows : (DomainPattern.parseForConstraints libs pattern).allows
      (DomainPattern.parseForConstraints libs entry) = true) : Covered libs managed entry := by
  have hread : (DomainPattern.parseForConstraints libs pattern).normalized
      = compiledPattern libs pattern := h.managed pattern hpattern hallows
  have hread' : (DomainPattern.parseForConstraints libs entry).normalized
      = compiledPattern libs entry := h.alike
  have hbelow := below_of_allows hallows (hread' ▸ h.name)
  rw [hread, hread'] at hbelow
  intro narrow hnarrow
  obtain ⟨wide, hwide, hbelow⟩ := hbelow narrow hnarrow
  exact ⟨pattern, hpattern, wide, hwide, hbelow⟩

end

/-! ## Lower case -/

/-- Every character is its own lower case. -/
def IsLower (text : Text) : Prop := ∀ c ∈ text, c.toLower = c

theorem toLower_toLower (c : Char) : c.toLower.toLower = c.toLower := by
  have hmoved : ∀ d : Char, ¬ (d.val ≥ 'A'.val ∧ d.val ≤ 'Z'.val) → d.toLower = d := by
    intro d hd
    unfold Char.toLower
    rw [dif_neg hd]
  by_cases h : c.val ≥ 'A'.val ∧ c.val ≤ 'Z'.val
  · apply hmoved
    unfold Char.toLower
    rw [dif_pos h]
    -- the code of a capital letter goes up by 32, beyond the capital letters
    have hlow : 65 ≤ c.val.toNat := h.1
    have hhigh : c.val.toNat ≤ 90 := h.2
    rintro ⟨_, hle⟩
    have hsum : (c.val + 32).toNat ≤ 90 := hle
    rw [UInt32.toNat_add] at hsum
    have h32 : (32 : UInt32).toNat = 32 := rfl
    omega
  · rw [hmoved c h, hmoved c h]

section

variable {libs : Libraries} {text text' domain : Text}

theorem IsLower.subset (h : IsLower text) (hsubset : text' ⊆ text) : IsLower text' :=
  fun c hc => h c (hsubset hc)

theorem isLower_append (h : IsLower text) (h' : IsLower text') : IsLower (text ++ text') := by
  grind [IsLower]

theorem isLower_toAsciiLowercase : IsLower (toAsciiLowercase text) := by
  intro c hc
  obtain ⟨d, _, rfl⟩ := List.mem_map.mp hc
  exact toLower_toLower d

theorem IsLower.map (h : IsLower text) : text.map Char.toLower = text :=
  (List.map_congr_left h).trans (List.map_id text)

theorem isLower_of_map (h : text.map Char.toLower = text) : IsLower text := by
  intro c hc
  exact List.map_inj_left.mp (h.trans (List.map_id text).symm) c hc

theorem IsLower.trim (h : IsLower text) : IsLower (trim text) :=
  (h.subset (List.dropWhile_suffix _).subset).subset (List.rdropWhile_prefix _ _).subset

theorem splitOnce_subset {delimiter : Text} {parts : Text × Text}
    (h : splitOnce delimiter text = some parts) : parts.1 ++ parts.2 ⊆ text := by
  induction text generalizing parts with
  | nil =>
    unfold splitOnce at h
    split at h
    · cases h
      simp
    · cases h
  | cons c rest ih =>
    unfold splitOnce at h
    split at h
    · cases h
      exact List.drop_subset _ _
    · obtain ⟨parts', hparts', rfl⟩ := Option.map_eq_some_iff.mp h
      exact List.cons_subset_cons c (ih hparts')

theorem isLower_normalizeIpLiteral (h : IsLower text)
    (hip : normalizeIpLiteral libs text = some text') : IsLower text' := by
  unfold normalizeIpLiteral at hip
  split at hip
  · cases hip
    exact h
  · obtain ⟨delimiter, _, hfound⟩ := List.exists_of_findSome?_eq_some hip
    split at hfound
    · next ip scope hsplit =>
      split at hfound
      · cases hfound
        have hparts : IsLower (ip ++ scope) := h.subset (splitOnce_subset hsplit)
        obtain ⟨hip, hscope⟩ := List.forall_mem_append.mp hparts
        exact isLower_append hip (List.forall_mem_cons.mpr ⟨by decide, hscope⟩)
      · cases hfound
    · cases hfound

theorem isLower_normalizeDnsHostOrIpLiteral :
    IsLower (normalizeDnsHostOrIpLiteral libs text) := by
  have hhost : IsLower (trimEndDots (toAsciiLowercase text)) :=
    isLower_toAsciiLowercase.subset (List.rdropWhile_prefix _ _).subset
  unfold normalizeDnsHostOrIpLiteral
  dsimp only
  cases hip : normalizeIpLiteral libs (trimEndDots (toAsciiLowercase text)) with
  | none => exact hhost
  | some ip => exact isLower_normalizeIpLiteral hhost hip

theorem isLower_normalizeHost : IsLower (normalizeHost libs text) := by
  unfold normalizeHost
  dsimp only
  split
  · exact isLower_normalizeDnsHostOrIpLiteral
  · grind [isLower_normalizeDnsHostOrIpLiteral]

theorem isLower_normalizePattern : IsLower (normalizePattern libs text) := by
  have hstar : IsLower ['*'] := isLower_of_map rfl
  have hapex : IsLower ['*', '*', '.'] := isLower_of_map rfl
  have hsubdomains : IsLower ['*', '.'] := isLower_of_map rfl
  unfold normalizePattern
  dsimp only
  split
  · exact hstar
  · grind [isLower_append, isLower_normalizeHost]

theorem IsLower.stripPrefix {first : Text} (h : IsLower text)
    (hstrip : stripPrefix first text = some text') : IsLower text' := by
  grind [NetworkProxy.stripPrefix, IsLower]

theorem IsLower.parseDomain {build : Text → DomainPattern} (h : IsLower text)
    (hbuild : ∀ domain, (build domain).domain = domain) :
    IsLower (DomainPattern.parseDomain text build).domain := by
  unfold DomainPattern.parseDomain
  dsimp only
  split
  · exact h.subset (List.nil_subset _)
  · rw [hbuild]
    exact h.trim

theorem IsLower.parse (h : IsLower text) : IsLower (DomainPattern.parse text).domain := by
  unfold DomainPattern.parse
  dsimp only
  split
  · exact h.subset (List.nil_subset _)
  · split
    · next hstrip => exact (h.trim.stripPrefix hstrip).parseDomain fun _ => rfl
    · split
      · next hstrip => exact (h.trim.stripPrefix hstrip).parseDomain fun _ => rfl
      · exact h.trim

variable (libs) in
/-- The globs are made of lower-case domains. -/
theorem isLower_compiledPattern (entry : Text) : IsLower (compiledPattern libs entry).domain :=
  isLower_normalizePattern.parse

/-! ## What a plain allowlist accepts -/

/-- An entry whose domain has only plain characters. -/
def PlainEntry (libs : Libraries) (entry : Text) : Prop :=
  ∀ c ∈ (compiledPattern libs entry).domain, isPlain c = true

theorem map_globItem (h : ∀ c ∈ text, isPlain c = true) :
    text.map globItem = text.map .literal := by
  refine List.map_congr_left fun c hc => ?_
  have hplain := h c hc
  unfold globItem
  rw [if_neg, if_neg]
  · rintro rfl
    exact absurd hplain (by decide)
  · rintro rfl
    exact absurd hplain (by decide)

theorem plain_cons (h : ∀ c ∈ text, isPlain c = true) : ∀ c ∈ '.' :: text, isPlain c = true :=
  List.forall_mem_cons.mpr ⟨by decide, h⟩

/-- A plain lower-case domain matches itself only, among lower-case texts. -/
theorem globMatches_plain (h : ∀ c ∈ domain, isPlain c = true) (hlower : IsLower domain)
    (htext : IsLower text) :
    globMatches Char.toLower (domain.map globItem) text = true ↔ text = domain := by
  rw [map_globItem h, globMatches_literals, hlower.map, htext.map, eq_comm]

/-- A domain and its subdomains, in terms of matching lower-case texts. -/
theorem globMatches_subdomains_plain (h : ∀ c ∈ domain, isPlain c = true)
    (hlower : IsLower domain) (htext : IsLower text) :
    globMatches Char.toLower ((['?', '*', '.'] ++ domain).map globItem) text = true
      ↔ ∃ front, front ≠ [] ∧ text = front ++ '.' :: domain := by
  have hlower' : IsLower ('.' :: domain) := List.forall_mem_cons.mpr ⟨by decide, hlower⟩
  rw [globMatches_subdomains]
  constructor
  · rintro ⟨front, back, rfl, hne, hback⟩
    have hlowerBack : IsLower back := htext.subset (List.subset_append_right _ _)
    obtain rfl := (globMatches_plain (plain_cons h) hlower' hlowerBack).mp hback
    exact ⟨front, hne, rfl⟩
  · rintro ⟨front, hne, rfl⟩
    exact ⟨front, _, rfl, hne, (globMatches_plain (plain_cons h) hlower' hlower').mpr rfl⟩

theorem mem_entryCandidates {entry : Text} (h : text ∈ entryCandidates libs entry) :
    text = (compiledPattern libs entry).domain
      ∨ text = ['?', '*', '.'] ++ (compiledPattern libs entry).domain := by
  change text ∈ (compiledPattern libs entry).candidates at h
  generalize compiledPattern libs entry = pattern at h
  cases pattern with
  | exact => exact Or.inl (List.mem_singleton.mp h)
  | subdomainsOnly => exact Or.inr (List.mem_singleton.mp h)
  | apexAndSubdomains => exact List.mem_pair.mp h

theorem exists_matcher_iff (hglobs : BuildsGlobs libs) (htext : IsGlobText text) {host : Text} :
    (∃ matcher ∈ libs.buildGlob text, matcher host = true)
      ↔ globMatches Char.toLower (text.map globItem) host = true := by
  obtain ⟨matcher, hmatcher, hmatches⟩ := hglobs text htext
  constructor
  · grind
  · intro hhost
    exact ⟨matcher, hmatcher, (hmatches host).trans hhost⟩

/-- One of the globs of an entry matches a host. -/
def Accepts (libs : Libraries) (entry host : Text) : Prop :=
  ∃ narrow ∈ entryCandidates libs entry, ∃ matcher ∈ libs.buildGlob narrow, matcher host = true

/-- The globs of a plain entry that match a lower-case host. -/
theorem Accepts.plain (hglobs : BuildsGlobs libs) {entry host : Text}
    (hplain : PlainEntry libs entry) (hhost : IsLower host) (h : Accepts libs entry host) :
    ∃ wide ∈ entryCandidates libs entry, wide = (compiledPattern libs entry).domain ∧ host = wide
      ∨ wide = ['?', '*', '.'] ++ (compiledPattern libs entry).domain
        ∧ ∃ front, front ≠ [] ∧ host = front ++ '.' :: (compiledPattern libs entry).domain := by
  obtain ⟨wide, hwide, hmatcher⟩ := h
  have hlower := isLower_compiledPattern libs entry
  have htext : IsGlobText (compiledPattern libs entry).domain := fun c hc => Or.inl (hplain c hc)
  refine ⟨wide, hwide, ?_⟩
  rcases mem_entryCandidates hwide with rfl | rfl
  · rw [exists_matcher_iff hglobs htext, globMatches_plain hplain hlower hhost] at hmatcher
    exact Or.inl ⟨rfl, hmatcher⟩
  · rw [exists_matcher_iff hglobs (isGlobText_subdomains htext),
      globMatches_subdomains_plain hplain hlower hhost] at hmatcher
    exact Or.inr ⟨rfl, hmatcher⟩

theorem exists_length_bound (texts : List Text) : ∃ n, ∀ text ∈ texts, text.length < n := by
  refine ⟨(texts.map List.length).sum + 1, fun text htext => ?_⟩
  have hle := List.single_le_sum (fun _ _ => Nat.zero_le _) text.length
    (List.mem_map_of_mem htext)
  omega

/-- Two subdomains of a domain: with a first label that is longer than another domain, the other
domain is a parent. -/
theorem suffix_of_append_eq {n : Nat} {front domain domain' : Text}
    (h : List.replicate n 'a' ++ '.' :: domain = front ++ '.' :: domain') :
    domain = domain' ∨ ('.' :: domain') <:+ domain := by
  rcases List.append_eq_append_iff.mp h with ⟨middle, rfl, hmiddle⟩ | ⟨middle, hfront, hmiddle⟩
  · cases middle with
    | nil => exact Or.inl (List.cons.inj hmiddle).2
    | cons c rest =>
      obtain ⟨_, hrest⟩ := List.cons.inj hmiddle
      exact Or.inr ⟨rest, hrest.symm⟩
  · cases middle with
    | nil => exact Or.inl (List.cons.inj hmiddle).2.symm
    | cons c rest =>
      have hmem : '.' ∈ List.replicate n 'a' := by grind
      exact absurd (List.eq_of_mem_replicate hmem) (by decide)

/-- A plain entry that accepts no more than plain managed entries is covered by them. -/
theorem covered_of_accepts (hglobs : BuildsGlobs libs) {managed : List Text} {entry : Text}
    (hplain : PlainEntry libs entry) (hmanaged : ∀ pattern ∈ managed, PlainEntry libs pattern)
    (h : ∀ host, Accepts libs entry host → ∃ pattern ∈ managed, Accepts libs pattern host) :
    Covered libs managed entry := by
  have hlower := isLower_compiledPattern libs entry
  have htext : IsGlobText (compiledPattern libs entry).domain := fun c hc => Or.inl (hplain c hc)
  intro narrow hnarrow
  rcases mem_entryCandidates hnarrow with rfl | rfl
  · -- the domain is a host itself
    obtain ⟨pattern, hpattern, haccepts⟩ := h _ ⟨_, hnarrow,
      (exists_matcher_iff hglobs htext).mpr ((globMatches_plain hplain hlower hlower).mpr rfl)⟩
    obtain ⟨wide, hwide, hcases⟩ := haccepts.plain hglobs (hmanaged pattern hpattern) hlower
    refine ⟨pattern, hpattern, wide, hwide, ?_⟩
    rcases hcases with ⟨_, hsame⟩ | ⟨rfl, front, hne, hsplit⟩
    · exact Or.inl hsame
    · grind [below_of_front, PlainEntry]
  · -- a subdomain whose first label is longer than every managed domain
    obtain ⟨n, hn⟩ := exists_length_bound (managed.map fun pattern =>
      (compiledPattern libs pattern).domain)
    have hletters :
        IsLower (List.replicate (n + 1) 'a' ++ '.' :: (compiledPattern libs entry).domain) := by
      refine isLower_append (fun c hc => ?_) (List.forall_mem_cons.mpr ⟨by decide, hlower⟩)
      rw [List.eq_of_mem_replicate hc]
      decide
    obtain ⟨pattern, hpattern, haccepts⟩ := h _ ⟨_, hnarrow,
      (exists_matcher_iff hglobs (isGlobText_subdomains htext)).mpr
        ((globMatches_subdomains_plain hplain hlower hletters).mpr
          ⟨List.replicate (n + 1) 'a', by simp, rfl⟩)⟩
    obtain ⟨wide, hwide, hcases⟩ := haccepts.plain hglobs (hmanaged pattern hpattern) hletters
    refine ⟨pattern, hpattern, wide, hwide, ?_⟩
    have hshort := hn _ (List.mem_map_of_mem hpattern)
    rcases hcases with ⟨rfl, hsame⟩ | ⟨rfl, front, hne, hsplit⟩
    · grind
    · rcases suffix_of_append_eq hsplit with hsame | hsuffix
      · exact Or.inl (by rw [hsame])
      · exact subdomains_below_of_subdomain hsuffix htext

end

/-! ## The ceiling -/

/-- **A managed allowlist is a ceiling if the entries are well read or covered**: a configuration
that passes accepts only hosts that the managed list accepts, provided each of its entries is read
alike by the check and by the compiler, or lies below managed entries anyway. For allowlists of
plain domains the condition is also necessary. -/
theorem ceiling_of_wellRead {libs : Libraries} (hglobs : BuildsGlobs libs)
    {debug : List Text → String} {mitmHooks : Except String Unit} {config : NetworkProxyConfig}
    {constraints : NetworkProxyConstraints} {managed : List Text} {set managedSet : GlobSet}
    (hvalid : validatePolicyAgainstConstraints libs debug mitmHooks config constraints = .ok ())
    (hmanaged : constraints.allowedDomains = some managed)
    (hceiling : constraints.allowlistExpansionEnabled = none)
    (hset : compileAllowlistGlobset libs (config.allowedDomains.getD []) = .ok set)
    (hmanagedSet : compileAllowlistGlobset libs managed = .ok managedSet) :
    ((∀ entry ∈ config.allowedDomains.getD [],
        WellRead libs managed entry ∨ Covered libs managed entry) →
      ∀ host, set.isMatch host = true → managedSet.isMatch host = true)
    ∧ ((∀ entry ∈ config.allowedDomains.getD [] ++ managed, PlainEntry libs entry) →
      (∀ host, set.isMatch host = true → managedSet.isMatch host = true) →
      ∀ entry ∈ config.allowedDomains.getD [],
        WellRead libs managed entry ∨ Covered libs managed entry) := by
  obtain ⟨_, hmatch⟩ := isMatch_compileAllowlistGlobset hset
  obtain ⟨_, hmatch'⟩ := isMatch_compileAllowlistGlobset hmanagedSet
  constructor
  · intro hread host hhost
    obtain ⟨entry, hentry, narrow, hnarrow, matcher, hmatcher, hhost⟩ := (hmatch host).mp hhost
    have hcovered : Covered libs managed entry := by
      rcases hread entry hentry with hread | hcovered
      · grind [allows_of_validated, hread.covered]
      · exact hcovered
    obtain ⟨pattern, hpattern, wide, hwide, hbelow⟩ := hcovered narrow hnarrow
    exact (hmatch' host).mpr ⟨pattern, hpattern, wide, hwide, hbelow.matches hglobs hmatcher hhost⟩
  · intro hplain hinclude entry hentry
    refine Or.inr (covered_of_accepts hglobs (hplain entry (List.mem_append_left _ hentry))
      (fun pattern hpattern => hplain pattern (List.mem_append_right _ hpattern)) ?_)
    intro host haccepts
    exact (hmatch' host).mp (hinclude host ((hmatch host).mpr ⟨entry, hentry, haccepts⟩))

/-! ### Concrete lists -/

/-- Libraries for texts of plain characters and wildcards, without IP addresses. -/
def plainLibraries : Libraries where
  isIpAddr _ := false
  urlHostParse text := if ':' ∈ text then none else some (toAsciiLowercase text)
  buildGlob text :=
    if text.all fun c => isPlain c || c = '*' || c = '?' then
      some (globMatches Char.toLower (text.map globItem))
    else none

theorem buildsGlobs_plainLibraries : BuildsGlobs plainLibraries := by
  intro text htext
  have hall : (text.all fun c => isPlain c || c = '*' || c = '?') = true := by
    refine List.all_eq_true.mpr fun c hc => ?_
    rcases htext c hc with h | h | h <;> simp [h]
  exact ⟨_, if_pos hall, fun _ => rfl⟩

/-- A configuration with the given domains allowed, and nothing else. -/
def allowing (domains : List String) : NetworkProxyConfig where
  enabled := true
  mode := .limited
  allowUpstreamProxy := false
  dangerouslyAllowNonLoopbackProxy := false
  dangerouslyAllowAllUnixSockets := false
  domains := some (domains.map fun domain => ⟨domain.toList, .allow⟩)
  unixSockets := none
  allowLocalBinding := false

/-- Constraints with a fixed list of managed domains, and nothing else. -/
def fixedCeiling (domains : List String) : NetworkProxyConstraints where
  enabled := none
  mode := none
  allowUpstreamProxy := none
  dangerouslyAllowNonLoopbackProxy := none
  dangerouslyAllowAllUnixSockets := none
  allowedDomains := some (domains.map String.toList)
  allowlistExpansionEnabled := none
  deniedDomains := none
  denylistExpansionEnabled := none
  allowUnixSockets := none
  allowLocalBinding := none

/-- Whether an allowlist compiles and accepts a host. -/
def acceptsHost (domains : List String) (host : String) : Except String Bool :=
  (compileAllowlistGlobset plainLibraries (domains.map String.toList)).map
    (·.isMatch host.toList)

theorem wellRead_subdomains :
    WellRead plainLibraries ["**.example.com".toList] "*.example.com".toList where
  alike := by unfold ReadAlike; decide +kernel
  name := ⟨List.all_eq_true.mp (by decide +kernel), by decide +kernel⟩
  managed := by
    intro pattern hpattern _
    obtain rfl := List.mem_singleton.mp hpattern
    unfold ReadAlike
    decide +kernel

theorem ceiling_of_wellRead_subdomains : ∃ set managedSet,
    validatePolicyAgainstConstraints plainLibraries (fun _ => "") (.ok ())
      (allowing ["*.example.com"]) (fixedCeiling ["**.example.com"]) = .ok ()
    ∧ compileAllowlistGlobset plainLibraries ["*.example.com".toList] = .ok set
    ∧ compileAllowlistGlobset plainLibraries ["**.example.com".toList] = .ok managedSet
    ∧ set.isMatch "api.example.com".toList = true
    ∧ managedSet.isMatch "api.example.com".toList = true := by
  have hvalid : validatePolicyAgainstConstraints plainLibraries (fun _ => "") (.ok ())
      (allowing ["*.example.com"]) (fixedCeiling ["**.example.com"]) = .ok () := by
    decide +kernel
  have hallowed : (allowing ["*.example.com"]).allowedDomains.getD []
      = ["*.example.com".toList] := by decide +kernel
  obtain ⟨set, hset, hhost⟩ : ∃ set, compileAllowlistGlobset plainLibraries
      ["*.example.com".toList] = .ok set ∧ set.isMatch "api.example.com".toList = true := by
    exact ⟨_, rfl, by decide +kernel⟩
  obtain ⟨managedSet, hmanagedSet⟩ : ∃ managedSet, compileAllowlistGlobset plainLibraries
      ["**.example.com".toList] = .ok managedSet := ⟨_, rfl⟩
  refine ⟨set, managedSet, hvalid, hset, hmanagedSet, hhost, ?_⟩
  refine (ceiling_of_wellRead buildsGlobs_plainLibraries hvalid rfl rfl
    (hallowed ▸ hset) hmanagedSet).1 ?_ _ hhost
  intro entry hentry
  obtain rfl := List.mem_singleton.mp hentry
  exact Or.inl wellRead_subdomains

/-- With a port, every domain is read as the empty one by the check, and a configuration passes
that allows another host than the managed one. -/
theorem above_ceiling_ports :
    BuildsGlobs plainLibraries
    ∧ plainLibraries.urlHostParse "evil.com:443".toList = none
    ∧ validatePolicyAgainstConstraints plainLibraries (fun _ => "") (.ok ())
      (allowing ["evil.com:443"]) (fixedCeiling ["example.com:443"]) = .ok ()
    ∧ (allowing ["evil.com:443"]).allowedDomains = some ["evil.com:443".toList]
    ∧ acceptsHost ["evil.com:443"] "evil.com" = .ok true
    ∧ acceptsHost ["example.com:443"] "evil.com" = .ok false :=
  ⟨buildsGlobs_plainLibraries, by decide +kernel, by decide +kernel, by decide +kernel,
    by decide +kernel, by decide +kernel⟩

end CodexRouter.NetworkProxy
