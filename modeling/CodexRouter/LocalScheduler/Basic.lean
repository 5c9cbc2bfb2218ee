import CodexRouter.Lib.SwapRemove
import CodexRouter.Lib.Table
import Mathlib.Tactic

set_option autoImplicit false

/-! # The local tool scheduler: data and the choice of a waiter

The scheduler of `codex-rs/ext/scheduler` admits tool calls to at most `max_concurrent`
running slots. A call that finds no slot waits with a one-shot channel; when a slot is freed
the scheduler picks a waiter by asking its scorer pairwise (`pick`), and sends it a grant.

A scorer is any implementation of the `Scorer` trait. What it reads besides the two tasks
(its tables, a snapshot file, the clock) is a state `σ` that both of its methods may change;
nothing is assumed about it. Scores are 32-bit floats in the source and rationals here: the
scheduler only asks whether a confidence exceeds `0` and a probability exceeds `1/2`. The
instants at which a call was granted go to logs and the trace file only and are left out.
-/

namespace CodexRouter.LocalScheduler

open CodexRouter.Lib

/-! ## Data -/

structure CallKey where
  thread_id : String
  turn_id : String
  call_id : String
deriving DecidableEq, Repr

structure TaskFeatures where
  cwd : String
  tool_name : String
  waiting_since : Nat
deriving DecidableEq, Repr

structure Preference where
  p_first_wins : ℚ
  confidence : ℚ

def Preference.UNKNOWN : Preference := ⟨1 / 2, 0⟩

/-- The `Scorer` trait, with what the scorer reads and writes on the side made explicit. -/
structure Scorer (σ : Type) where
  refresh : σ → σ
  score : σ → TaskFeatures → TaskFeatures → Preference × σ

/-- A scorer without an opinion, as `RuleScorer::default()` is: the longest wait goes first. -/
def Scorer.unknown : Scorer Unit := ⟨id, fun env _ _ => (Preference.UNKNOWN, env)⟩

/-- A running call. `fail_open` is not in the source: it records which of the two callers
of `State::start` made the entry. -/
structure Running where
  features : TaskFeatures
  fail_open : Bool
deriving DecidableEq, Repr

/-- A waiting call; `grant` names the admission whose channel the sender belongs to. -/
structure Waiter where
  key : CallKey
  features : TaskFeatures
  grant : Nat
deriving DecidableEq, Repr

/-- What the mutex of the scheduler protects. -/
structure State where
  running : Table CallKey Running
  waiting : List Waiter

structure Scheduler (σ : Type) where
  scorer : Scorer σ
  max_concurrent : Nat

/-- The constructor raises the limit to at least one slot. -/
def Scheduler.new {σ : Type} (scorer : Scorer σ) (max_concurrent : Nat) : Scheduler σ :=
  ⟨scorer, max max_concurrent 1⟩

def State.start (s : State) (key : CallKey) (features : TaskFeatures) (fail_open : Bool) :
    State :=
  { s with running := s.running.insert key ⟨features, fail_open⟩ }

/-! ## The choice of a waiter -/

def Preference.firstWins (p : Preference) : Bool := p.p_first_wins > 1 / 2

section Pick

variable {σ : Type} (sc : Scheduler σ)

/-- Whether the first task goes before the second: the scorer's verdict when it has one,
the longer wait otherwise. -/
def Scheduler.prefers (env : σ) (first second : TaskFeatures) : Bool × σ :=
  let (preference, env) := sc.scorer.score env first second
  if preference.confidence > 0 then (preference.firstWins, env)
  else (first.waiting_since < second.waiting_since, env)

/-- The scan of `pick`: `best` is the index of the best waiter so far and `features` its
features, `index` the index of the head of the rest. -/
def Scheduler.pickFrom : σ → List Waiter → (best : Nat) → TaskFeatures → (index : Nat) → Nat × σ
  | env, [], best, _, _ => (best, env)
  | env, w :: ws, best, features, index =>
    match sc.prefers env w.features features with
    | (true, env) => pickFrom env ws index w.features (index + 1)
    | (false, env) => pickFrom env ws best features (index + 1)

/-- The index of the waiter to grant next, `none` when nobody waits. -/
def Scheduler.pick (env : σ) (waiting : List Waiter) : Option Nat × σ :=
  let env := sc.scorer.refresh env
  match waiting with
  | [] => (none, env)
  | w :: ws =>
    let (best, env) := sc.pickFrom env ws 0 w.features 1
    (some best, env)

theorem Scheduler.pickFrom_lt (ws : List Waiter) :
    ∀ (env : σ) (best : Nat) (features : TaskFeatures) (index : Nat), best < index →
      (sc.pickFrom env ws best features index).1 < index + ws.length := by
  induction ws with
  | nil => intro env best features index h; simpa [pickFrom] using h
  | cons w ws ih =>
    intro env best features index h
    rw [pickFrom, List.length_cons]
    rcases sc.prefers env w.features features with ⟨_ | _, env'⟩
    · have := ih env' best features (index + 1) (by omega)
      simp only; omega
    · have := ih env' index w.features (index + 1) (by omega)
      simp only; omega

/-- `pick` returns an index of the list, and nothing only when the list is empty. -/
theorem Scheduler.pick_spec (env : σ) (waiting : List Waiter) :
    match (sc.pick env waiting).1 with
    | none => waiting = []
    | some index => index < waiting.length := by
  cases waiting with
  | nil => rfl
  | cons w ws =>
    have h := sc.pickFrom_lt ws (sc.scorer.refresh env) 0 w.features 1 (by omega)
    simp only [pick, List.length_cons]
    omega

end Pick

end CodexRouter.LocalScheduler
