import CodexRouter.LocalScheduler.Importance
import Mathlib.Data.Prod.Lex
import Mathlib.Data.String.Basic

set_option autoImplicit false

/-! # The rule, pair table and aging scorers

`codex-rs/ext/scheduler/src/scorer.rs` and the policies that `lib.rs` builds from it. A chain asks
its scorers in turn and takes the first verdict that is confident enough. The counters of the pair
table are 32-bit numbers that wrap around, as in a release build.
-/

namespace CodexRouter.LocalScheduler

open CodexRouter.Lib

/-! ## Rules -/

/-- The tier of the longest path above the directory, the last one among equals. -/
def tierOf (cwdTiers : List (String × Nat)) (cwd : String) : Option Nat :=
  ((cwdTiers.filter fun e => (components e.1).isPrefixOf (components cwd)).foldl
    (fun best e =>
      match best with
      | none => some e
      | some b => if b.1.utf8ByteSize ≤ e.1.utf8ByteSize then some e else some b) none).map Prod.snd

structure RuleScorer where
  cwdTiers : List (String × Nat)
  cheapTools : List String

def RuleScorer.isCheap (rules : RuleScorer) (toolName : String) : Bool :=
  rules.cheapTools.any fun tool => tool = toolName

/-- A cheap tool goes before one that is not. -/
def RuleScorer.scoreTools (rules : RuleScorer) (first second : TaskFeatures) : Preference :=
  match rules.isCheap first.tool_name, rules.isCheap second.tool_name with
  | true, false => ⟨8 / 10, 6 / 10⟩
  | false, true => ⟨2 / 10, 6 / 10⟩
  | _, _ => .UNKNOWN

def RuleScorer.score (rules : RuleScorer) (first second : TaskFeatures) : Preference :=
  match tierOf rules.cwdTiers first.cwd, tierOf rules.cwdTiers second.cwd with
  | some a, some b => if a ≠ b then .certain (a < b) else rules.scoreTools first second
  | _, _ => rules.scoreTools first second

/-! ## The pair table -/

/-- A component in the order of `std::path::Component`: the root, `.` and `..` before names. -/
def componentKey (c : String) : Nat ×ₗ String :=
  toLex (if c = "/" then 0 else if c = "." then 1 else if c = ".." then 2 else 3, c)

/-- `PairKey` with its derived order: the directory by its components, then the tool. -/
abbrev PairKey := List (Nat ×ₗ String) ×ₗ String

instance : DecidableEq PairKey := LinearOrder.toDecidableEq

def PairKey.of (features : TaskFeatures) : PairKey :=
  toLex ((components features.cwd).map componentKey, features.tool_name)

def PairKey.canonicalPair (first second : TaskFeatures) : (PairKey × PairKey) × Bool :=
  if PairKey.of first > PairKey.of second then ((PairKey.of second, PairKey.of first), true)
  else ((PairKey.of first, PairKey.of second), false)

/-- The wins of the first of the pair, and the number of records. -/
abbrev PairTable := Table (PairKey × PairKey) (UInt32 × UInt32)

namespace PairTable

def record (pairs : PairTable) (first second : TaskFeatures) (firstWins : Bool) : PairTable :=
  let (key, reversed) := PairKey.canonicalPair first second
  let (wins, total) := (pairs.get? key).getD (0, 0)
  pairs.insert key (wins + (if firstWins ≠ reversed then 1 else 0), total + 1)

def lookup (pairs : PairTable) (first second : TaskFeatures) : Option (UInt32 × UInt32) :=
  let (key, reversed) := PairKey.canonicalPair first second
  (pairs.get? key).map fun (wins, total) => (if reversed then total - wins else wins, total)

/-- The verdict of a majority. -/
def verdict (wins total : UInt32) : Preference :=
  if total > 0 ∧ wins * 2 ≠ total then .certain (wins * 2 > total) else .UNKNOWN

def score (pairs : PairTable) (first second : TaskFeatures) : Preference :=
  match pairs.lookup first second with
  | some (wins, total) => verdict wins total
  | none => .UNKNOWN

end PairTable

/-! ## Policies -/

/-- What the scorers of a policy read: the pair table, and a clock that never goes back. Its
readings are numbered. -/
structure PolicyState where
  pairs : PairTable
  clock : Nat → Nat
  mono : Monotone clock
  reads : Nat

/-- The state after a reading of the clock. -/
def PolicyState.tick (s : PolicyState) : PolicyState := { s with reads := s.reads + 1 }

def ruleScorer (rules : RuleScorer) : Scorer PolicyState :=
  ⟨id, fun s first second => (rules.score first second, s)⟩

def pairTableScorer : Scorer PolicyState :=
  ⟨id, fun s first second => (s.pairs.score first second, s)⟩

/-- A call that has waited for `maxWait` goes before one that has not. -/
def agingScorer (maxWait : Nat) : Scorer PolicyState where
  refresh := id
  score s first second :=
    let now := s.clock s.reads
    let firstStale : Bool := now - first.waiting_since ≥ maxWait
    let secondStale : Bool := now - second.waiting_since ≥ maxWait
    (match firstStale, secondStale with
      | false, false => .UNKNOWN
      | _, _ => .certain
        (firstStale && (!secondStale || first.waiting_since ≤ second.waiting_since)), s.tick)

variable {σ : Type}

/-- The scorers after one that has given its verdict are not asked. -/
def chainScore (threshold : ℚ) :
    List (Scorer σ) → σ → TaskFeatures → TaskFeatures → Preference × σ
  | [], s, _, _ => (.UNKNOWN, s)
  | scorer :: rest, s, first, second =>
    let (preference, s) := scorer.score s first second
    if preference.confidence ≥ threshold then (preference, s)
    else chainScore threshold rest s first second

def chainScorer (scorers : List (Scorer σ)) (threshold : ℚ) : Scorer σ :=
  ⟨fun s => scorers.foldl (fun s scorer => scorer.refresh s) s, chainScore threshold scorers⟩

def chainThreshold : ℚ := 1 / 2

def learned (tiers : List (String × Nat)) : List (Scorer PolicyState) :=
  [ruleScorer ⟨tiers, ["read_file", "list_dir", "grep_files", "tool_search"]⟩, pairTableScorer]

def defaultPolicy (tiers : List (String × Nat)) (slots : Nat) : Scheduler PolicyState :=
  .new (chainScorer (learned tiers) chainThreshold) slots

def agingPolicy (tiers : List (String × Nat)) (maxWait slots : Nat) : Scheduler PolicyState :=
  .new (chainScorer (agingScorer maxWait :: learned tiers) chainThreshold) slots

/-! ## Both sides of a pair -/

section Pairs

variable {wins total : UInt32} {records : List (TaskFeatures × TaskFeatures × Bool)}

/-- The table after some records. -/
def recorded (records : List (TaskFeatures × TaskFeatures × Bool)) : PairTable :=
  records.foldl (fun pairs r => pairs.record r.1 r.2.1 r.2.2) Table.empty

/-- Counters that have not wrapped around, after at most so many records. -/
def Counted (n : Nat) (e : UInt32 × UInt32) : Prop :=
  e.1.toNat ≤ e.2.toNat ∧ e.2.toNat ≤ n

/-- How many records are about the pair. -/
def recordsOf (records : List (TaskFeatures × TaskFeatures × Bool)) (key : PairKey × PairKey) :
    Nat :=
  records.countP fun r => (PairKey.canonicalPair r.1 r.2.1).1 = key

theorem counted_recorded (key : PairKey × PairKey) (hfew : recordsOf records key < 2 ^ 32) :
    Counted (recordsOf records key) (((recorded records).get? key).getD (0, 0)) := by
  induction records using List.reverseRecOn with
  | nil => exact ⟨le_rfl, le_rfl⟩
  | append_singleton records r ih =>
    rw [recordsOf, List.countP_append, List.countP_singleton, ← recordsOf] at hfew ⊢
    obtain ⟨hwins, htotal⟩ := ih (by omega)
    unfold recorded at hwins htotal ⊢
    rw [List.foldl_append, List.foldl_cons, List.foldl_nil, PairTable.record, Table.get?_insert,
      Counted]
    split
    · subst key
      simp only [decide_true, if_true] at hfew
      simp only [Option.getD_some, UInt32.toNat_add, decide_true, if_true]
      split <;> simp <;> omega
    · exact ⟨hwins, Nat.le_add_right_of_le htotal⟩

@[simp] theorem firstWins_certain (b : Bool) : (Preference.certain b).firstWins = b := by
  cases b <;> simp [Preference.certain, Preference.firstWins]
  norm_num

/-- Without overflow, the verdict is that of the majority. -/
theorem verdict_eq (hwins : wins.toNat ≤ total.toNat) (htotal : total.toNat < 2 ^ 31) :
    PairTable.verdict wins total = if wins.toNat * 2 = total.toNat then .UNKNOWN
      else .certain (wins.toNat * 2 > total.toNat) := by
  have htwice : (wins * 2).toNat = wins.toNat * 2 := by
    have : (2 : UInt32).toNat = 2 := rfl
    rw [UInt32.toNat_mul, this]
    omega
  simp only [PairTable.verdict, ne_eq, gt_iff_lt, UInt32.lt_iff_toNat_lt, ← UInt32.toNat_inj,
    htwice]
  grind

theorem firstWins_verdict_sub (hwins : wins.toNat ≤ total.toNat) (htotal : total.toNat < 2 ^ 31)
    (hverdict : 0 < (PairTable.verdict wins total).confidence) :
    (PairTable.verdict (total - wins) total).firstWins
      = !(PairTable.verdict wins total).firstWins := by
  have hsub : (total - wins).toNat = total.toNat - wins.toNat :=
    UInt32.toNat_sub_of_le _ _ (UInt32.le_iff_toNat_le.mpr hwins)
  rw [verdict_eq hwins htotal] at hverdict ⊢
  rw [verdict_eq (by omega) htotal, hsub]
  split at hverdict
  · cases hverdict
  · rename_i hne
    rw [if_neg (by omega), if_neg hne, firstWins_certain, firstWins_certain]
    grind

theorem counted_lookup {a b : TaskFeatures}
    (hfew : recordsOf records (PairKey.canonicalPair a b).1 < 2 ^ 32)
    (h : (recorded records).lookup a b = some (wins, total)) :
    Counted (recordsOf records (PairKey.canonicalPair a b).1) (wins, total) := by
  obtain ⟨e, hget, heq⟩ := Option.map_eq_some_iff.mp h
  obtain ⟨hwins, htotal⟩ := counted_recorded (PairKey.canonicalPair a b).1 hfew
  rw [show (recorded records).get? (PairKey.canonicalPair a b).1 = some e from hget] at hwins htotal
  cases heq
  refine ⟨?_, htotal⟩
  split
  · exact (UInt32.toNat_sub_of_le _ _ (UInt32.le_iff_toNat_le.mpr hwins)).trans_le (Nat.sub_le _ _)
  · exact hwins

/-- The other side of a pair of different keys. -/
theorem lookup_swap (pairs : PairTable) {a b : TaskFeatures}
    (hne : PairKey.of a ≠ PairKey.of b) :
    pairs.lookup b a = (pairs.lookup a b).map fun e => (e.2 - e.1, e.2) := by
  unfold PairTable.lookup PairKey.canonicalPair
  rcases lt_or_gt_of_ne hne with hlt | hgt
  · simp [hlt, not_lt_of_gt hlt]
  · have hback : ∀ wins total : UInt32, total - (total - wins) = wins := by grind
    simp [hgt, not_lt_of_gt hgt, Function.comp_def, hback]

/-- **The pair table says the same from both sides** of a pair exactly where the tasks differ in
their directory or their tool: records of tasks with one key have no side that `lookup` could turn
around. -/
theorem score_recorded_swap (records : List (TaskFeatures × TaskFeatures × Bool))
    (a b : TaskFeatures) (hfew : recordsOf records (PairKey.canonicalPair a b).1 < 2 ^ 31)
    (hverdict : 0 < ((recorded records).score a b).confidence) :
    (((recorded records).score a b).firstWins = true ↔
        ¬ ((recorded records).score b a).firstWins = true) ↔
      PairKey.of a ≠ PairKey.of b := by
  constructor
  · intro h heq
    have hsame : (recorded records).score b a = (recorded records).score a b := by
      simp only [PairTable.score, PairTable.lookup, PairKey.canonicalPair, heq]
    rw [hsame] at h
    exact iff_not_self h
  · intro hne
    unfold PairTable.score at hverdict ⊢
    rw [lookup_swap _ hne]
    cases hlookup : (recorded records).lookup a b with
    | none =>
      rw [hlookup] at hverdict
      cases hverdict
    | some e =>
      rw [hlookup] at hverdict
      obtain ⟨hwins, htotal⟩ := counted_lookup (by omega) hlookup
      have hflip := firstWins_verdict_sub hwins (by omega) hverdict
      simp only [Option.map_some, hflip]
      simp

def readAt (since : Nat) : TaskFeatures := ⟨"/repo", "read_file", since⟩

def shellAt (since : Nat) : TaskFeatures := ⟨"/repo", "shell", since⟩

theorem score_recorded_swap_tools :
    ((recorded [(readAt 0, shellAt 0, true)]).score (readAt 1) (shellAt 2)).firstWins = true ↔
      ¬ ((recorded [(readAt 0, shellAt 0, true)]).score (shellAt 2) (readAt 1)).firstWins = true :=
  (score_recorded_swap [(readAt 0, shellAt 0, true)] (readAt 1) (shellAt 2) (by decide +kernel)
    (by decide +kernel)).mpr (by decide +kernel)

/-- Each of the two is said to win against the other. -/
theorem not_score_recorded_swap :
    let pairs := recorded [(readAt 0, readAt 1, true)]
    0 < (pairs.score (readAt 0) (readAt 1)).confidence ∧
      (pairs.score (readAt 0) (readAt 1)).firstWins = true ∧
      (pairs.score (readAt 1) (readAt 0)).firstWins = true := by
  decide +kernel

end Pairs

end CodexRouter.LocalScheduler
