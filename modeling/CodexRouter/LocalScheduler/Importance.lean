import CodexRouter.Lib.Json
import CodexRouter.LocalScheduler.Basic

set_option autoImplicit false

/-! # The importance scorer

`ImportanceScorer` of `codex-rs/ext/scheduler/src/importance.rs`: it reads scores and directory
bindings from a snapshot file, and prefers the task with the higher score plus the points for its
wait. What it reads outside (the file, the directories, the clock) is part of its state. Times are
in nanoseconds, and the clock stands still during a scan.
-/

namespace CodexRouter.LocalScheduler

open CodexRouter.Lib

/-! ## Paths -/

/-- A path by its components, the root included. -/
abbrev Path := List String

/-- `Path::components` of a path as written: no empty component, and no `.` but a leading one. -/
def components (path : String) : Path :=
  let parts := (path.toList.splitOnP fun c => c = '/').map String.ofList
  let root := if path.toList.head? = some '/' then ["/"] else []
  let dot := if parts.head? = some "." then ["."] else []
  root ++ dot ++ parts.filter fun part => part ≠ "" ∧ part ≠ "."

/-- `path.canonicalize().unwrap_or(path)`. -/
def located (canonicalize : String → Option Path) (path : String) : Path :=
  (canonicalize path).getD (components path)

/-! ## The snapshot -/

/-- The scores stand for a map, each key once. -/
structure Snapshot where
  version : Nat
  scores : List (String × ℚ)
  bindings : List (Path × String)
deriving DecidableEq

def Snapshot.get (snapshot : Snapshot) (key : String) : Option ℚ :=
  (snapshot.scores.find? fun e => e.1 = key).map Prod.snd

/-- `as_f64`. -/
def asF64 : Json → Option ℚ
  | .int n => some n
  | .float (.finite q) => some q
  | _ => none

def loadScore (value : Json) : Option ℚ :=
  match asF64 value with
  | some score => if 0 ≤ score ∧ score ≤ 100 then some score else none
  | none => none

def loadBinding (canonicalize : String → Option Path) (binding : Json) :
    Option (Path × String) := do
  let cwd ← (binding.get? "cwd").bind Json.str?
  let key ← (binding.get? "key").bind Json.str?
  if cwd.toList.head? = some '/' ∧ key ≠ "" then some (located canonicalize cwd, key) else none

/-- One round of the loop over the bindings. -/
def addBinding (canonicalize : String → Option Path) (bindings : List (Path × String))
    (binding : Json) : Option (List (Path × String)) := do
  let found ← loadBinding canonicalize binding
  if bindings.any fun b => b.1 = found.1 then none else some (bindings ++ [found])

/-- `load`, from the parsed file. -/
def load (canonicalize : String → Option Path) (value : Json) : Option Snapshot := do
  let version ← (value.get? "fit_version").bind Json.u64?
  let members ← (value.get? "scores").bind Json.obj?
  let scores ← members.mapM fun m => do return (m.1, ← loadScore m.2)
  let items ← (value.get? "bindings").bind Json.arr?
  let bindings ← items.foldlM (addBinding canonicalize) []
  return { version, scores, bindings }

/-! ## The scorer -/

/-- What the scorer holds and what it finds outside: the parsed file, unless it cannot be read or
is too long or no JSON. -/
structure ImportanceState where
  snapshot : Snapshot
  file : Option Json
  canonicalize : String → Option Path
  now : Nat

namespace ImportanceState

def refresh (s : ImportanceState) : ImportanceState :=
  match s.file.bind (load s.canonicalize) with
  | some next => if next.version ≥ s.snapshot.version then { s with snapshot := next } else s
  | none => s

/-- `max_by_key` of the number of components: the last of the longest. -/
def lastLongest (found : List (Path × String)) : Option (Path × String) :=
  found.foldl (fun best b =>
    match best with
    | none => some b
    | some b' => if b'.1.length ≤ b.1.length then some b else some b') none

def importance (s : ImportanceState) (task : TaskFeatures) : ℚ :=
  let path := located s.canonicalize task.cwd
  ((lastLongest (s.snapshot.bindings.filter fun b => b.1.isPrefixOf path)).bind fun b =>
    s.snapshot.get b.2).getD 50

/-- `now.duration_since(waiting_since)` in seconds. -/
def waited (s : ImportanceState) (task : TaskFeatures) : ℚ :=
  ((s.now - task.waiting_since : Nat) : ℚ) / 10 ^ 9

/-- The points of a task, of which `score` looks at the difference. -/
def points (rate : ℚ) (s : ImportanceState) (task : TaskFeatures) : ℚ :=
  s.importance task + rate * s.waited task

end ImportanceState

def Preference.certain (firstWins : Bool) : Preference := ⟨if firstWins then 1 else 0, 1⟩

def importanceScorer (rate : ℚ) : Scorer ImportanceState where
  refresh := ImportanceState.refresh
  score s first second :=
    let diff := s.importance first - s.importance second
      + rate * (s.waited first - s.waited second)
    (if diff = 0 then Preference.UNKNOWN else Preference.certain (diff > 0), s)

/-- The task has more points, or as many and waits longer. -/
def Ahead (rate : ℚ) (s : ImportanceState) (first second : TaskFeatures) : Prop :=
  s.points rate second < s.points rate first ∨
    s.points rate second = s.points rate first ∧ first.waiting_since < second.waiting_since

instance (rate : ℚ) (s : ImportanceState) (first second : TaskFeatures) :
    Decidable (Ahead rate s first second) := by
  unfold Ahead
  infer_instance

theorem Ahead.trans {rate : ℚ} {s : ImportanceState} {a b c : TaskFeatures}
    (hab : Ahead rate s a b) (hbc : Ahead rate s b c) : Ahead rate s a c := by
  grind [Ahead]

theorem Ahead.irrefl (rate : ℚ) (s : ImportanceState) (a : TaskFeatures) : ¬ Ahead rate s a a := by
  grind [Ahead]

theorem prefers_importance {rate : ℚ} {sc : Scheduler ImportanceState}
    (hsc : sc.scorer = importanceScorer rate) (s : ImportanceState) (first second : TaskFeatures) :
    sc.prefers s first second = (decide (Ahead rate s first second), s) := by
  have hdiff : s.importance first - s.importance second
      + rate * (s.waited first - s.waited second)
        = s.points rate first - s.points rate second := by
    unfold ImportanceState.points
    ring
  have hscore : sc.scorer.score s first second =
      (if s.points rate first - s.points rate second = 0 then Preference.UNKNOWN
        else Preference.certain (s.points rate first - s.points rate second > 0), s) := by
    rw [hsc, ← hdiff]
    rfl
  unfold Scheduler.prefers
  rw [hscore]
  by_cases heq : s.points rate first - s.points rate second = 0
  · have heq' : s.points rate second = s.points rate first := (sub_eq_zero.mp heq).symm
    simp [Preference.UNKNOWN, Ahead, heq']
  · have hne : s.points rate second ≠ s.points rate first :=
      fun h => heq (sub_eq_zero.mpr h.symm)
    simp only [if_neg heq, Preference.certain, zero_lt_one, if_true, Preference.firstWins]
    rw [Prod.mk.injEq]
    refine ⟨?_, rfl⟩
    by_cases hlt : s.points rate second < s.points rate first
    · have hpos : s.points rate first - s.points rate second > 0 := sub_pos.mpr hlt
      simp only [hpos, decide_true, if_true, Ahead, hlt, true_or]
      norm_num
    · have hneg : ¬ s.points rate first - s.points rate second > 0 :=
        fun h => hlt (sub_pos.mp h)
      simp only [hneg, decide_false, Bool.false_eq_true, if_false, Ahead, hlt, hne, false_and,
        or_self]
      norm_num

end CodexRouter.LocalScheduler
