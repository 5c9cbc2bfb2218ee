import CodexRouter.Lib.Json
import CodexRouter.Lib.Run
import CodexRouter.Lib.Table

set_option autoImplicit false

/-! # The dispatch ledger and its steps

The router of `router/src/core` keeps one reservation for each backend attempt. The ledger maps
the identity of an attempt to its worker, its policy and its state; the load counter of a
worker is raised when an attempt is reserved and lowered when it is released. An attempt is
released by `finish`, by the destructor of its reservation, or by `observe_epoch` when the
engine behind its worker was replaced. Next to the ledger the health checker of the worker
registry writes the load counters.

A step is one critical section of the ledger's lock together with what the call does after it
alone. `observe_epoch` collects identities in one critical section and releases each of them
in one of its own, and the destructor of a reservation that was never sent takes the lock
twice; these are several steps. `reset_load` takes no lock and may fall inside a critical section.
`select_and_reserve` and `release` are one step all the same: a reset between the raising of the
load and the insertion of the attempt leaves what a reset right after the reservation leaves, and
one between the removal of the attempt and the lowering of the load, which stops at zero, what a
reset right after the release leaves. Identities are drawn fresh: the `n`-th reservation is attempt
`n`. Workers, policies and callbacks are named by numbers.
-/

namespace CodexRouter.Ledger

open CodexRouter.Lib

/-! ## Data -/

inductive AttemptState
  | reserved
  | dispatched
  | unknown
deriving DecidableEq, Repr

structure Attempt where
  worker : Nat
  policy : Nat
  state : AttemptState
  epoch : Option String
deriving DecidableEq, Repr

/-- Where a reservation stands: in use, in its destructor between the two critical sections,
or gone. -/
inductive Phase
  | live
  | dropping
  | dropped
deriving DecidableEq, Repr

structure Reservation where
  worker : Nat
  phase : Phase
  on_success : Option Nat
  dispatched_at : Option Nat
  sample_context : Option (List (String × Json))
  output_tokens : Option Nat
  finish_reason : Option String

/-- What leaves the ledger, and for later reference the moment at which `dispatched` finds its
attempt. -/
inductive Effect
  | dispatched (id : Nat)
  | decrement (id worker : Nat)
  | complete (id policy : Nat) (url : String) (success : Bool)
  | sample (id : Nat) (success : Bool) (completion : Nat) (context : List (String × Json))
      (output_tokens : Option Nat) (finish_reason : Option String)
  | callback (id callback : Nat)

/-- A running `observe_epoch`: the identities still to be released, each with the epoch for
which it was collected. -/
structure Observer where
  url : String
  epoch : String
  ids : List (Nat × String)
deriving DecidableEq, Repr

structure System where
  loads : Nat → Nat
  attempts : Table Nat Attempt
  reservations : List Reservation
  observers : List Observer
  /-- What has left the ledger, the newest first. -/
  log : List Effect
  /-- The cycles of the health checker, and the workers whose load it is about to reset. -/
  check_count : Nat
  resets : List Nat

def System.init : System := ⟨fun _ => 0, Table.empty, [], [], [], 0, []⟩

/-! ## The usage of a response -/

/-- `usage.completion_tokens`, or else `usage.output_tokens`. -/
def usageTokens (response : Json) : Option Nat := do
  let usage ← response.get? "usage"
  let tokens ← (usage.get? "completion_tokens").or (usage.get? "output_tokens")
  tokens.u64?

/-- The reason why a response ended. A truncated choice counts for all choices. -/
def finishReason (response : Json) : Option String :=
  let reasons := (((response.get? "choices").bind Json.arr?).getD []).filterMap fun choice =>
    (choice.get? "finish_reason").bind Json.str?
  let reason :=
    -- one choice that was cut off makes the response one that was cut off
    if "length" ∈ reasons then some "length"
    else reasons.head?.or ((response.get? "finish_reason").bind Json.str?)
  reason.or <|
    match (response.get? "status").bind Json.str? with
    | some "completed" => some "stop"
    | some "incomplete" =>
      let details := (response.get? "incomplete_details").bind fun d => d.get? "reason"
      if details.bind Json.str? = some "max_output_tokens" then some "length" else none
    | _ => none

/-- `observe_response_usage`: the last usage and the last reason seen are kept. -/
def Reservation.observeResponseUsage (r : Reservation) (value : Json) : Reservation :=
  let response := (value.get? "response").getD value
  let r :=
    match usageTokens response with
    | some tokens => { r with output_tokens := some tokens }
    | none => r
  match (finishReason response).filter fun reason => reason.utf8ByteSize ≤ 128 with
  | some reason => { r with finish_reason := some reason }
  | none => r

/-! ## Operations -/

def System.updateReservation (s : System) (id : Nat) (f : Reservation → Reservation) : System :=
  { s with reservations := s.reservations.modify id f }

/-- `attempts.get_mut`: change an attempt that is there. -/
def System.updateAttempt (s : System) (id : Nat) (f : Attempt → Attempt) : System :=
  match s.attempts.get? id with
  | some attempt => { s with attempts := s.attempts.insert id (f attempt) }
  | none => s

def setLoad (loads : Nat → Nat) (worker load : Nat) : Nat → Nat :=
  fun w => if w = worker then load else loads w

/-- `select_and_reserve`: `select` is what the closure returns. -/
def selectAndReserve (workers : List Nat) (policy : Nat) (select : Option Nat) (s : System) :
    System :=
  match select.bind fun index => workers[index]? with
  | some worker =>
    { s with
      loads := setLoad s.loads worker (s.loads worker + 1)
      attempts := s.attempts.insert s.reservations.length ⟨worker, policy, .reserved, none⟩
      reservations := s.reservations ++ [⟨worker, .live, none, none, none, none, none⟩] }
  | none => s

section Release

variable (url : Nat → String)

/-- `release`: take the attempt out, lower the load of its worker, which stops at zero, and
tell the policy. -/
def release (id : Nat) (success : Bool) (s : System) : System × Bool :=
  match s.attempts.get? id with
  | some attempt =>
    ({ s with
      attempts := s.attempts.erase id
      loads := setLoad s.loads attempt.worker (s.loads attempt.worker - 1)
      log := .complete id attempt.policy (url attempt.worker) success
        :: .decrement id attempt.worker :: s.log }, true)
  | none => (s, false)

/-- The sample of a completion. The context is used up even when none is written. -/
def emitSample (id : Nat) (success : Bool) (finished_at : Nat) (s : System) : System :=
  match s.reservations[id]? with
  | some r =>
    let log :=
      match r.dispatched_at, r.sample_context with
      | some started, some context =>
        .sample id success (finished_at - started) context r.output_tokens r.finish_reason
          :: s.log
      | _, _ => s.log
    { s.updateReservation id fun r => { r with sample_context := none } with log := log }
  | none => s

/-- The callback of a success, at most once. -/
def runCallback (id : Nat) (success : Bool) (s : System) : System :=
  match success, (s.reservations[id]?).bind Reservation.on_success with
  | true, some callback =>
    { s.updateReservation id fun r => { r with on_success := none } with
      log := .callback id callback :: s.log }
  | _, _ => s

def finish (id : Nat) (success : Bool) (now : Nat) (s : System) : System :=
  match release url id success s with
  | (s, true) => runCallback id success (emitSample id success now s)
  | (s, false) => s

/-- The first critical section of the destructor. -/
def dropEnter (id : Nat) (s : System) : System :=
  match s.attempts.get? id with
  | some attempt =>
    -- never sent: the destructor goes on to finish it as failed
    if attempt.state = .reserved then
      s.updateReservation id fun r => { r with phase := .dropping }
    else
      (s.updateAttempt id fun a => { a with state := .unknown }).updateReservation id
        fun r => { r with phase := .dropped }
  | none => s.updateReservation id fun r => { r with phase := .dropped }

/-- The first critical section of `observe_epoch`: the attempts of that URL whose recorded
epoch differs. -/
def collectIds (worker_url epoch : String) (attempts : Table Nat Attempt) : List (Nat × String) :=
  attempts.entries.filterMap fun e =>
    match e.2.epoch with
    | some old => if url e.2.worker = worker_url ∧ old ≠ epoch then some (e.1, old) else none
    | none => none

end Release

/-! ## Steps -/

inductive Event
  | reserve (workers : List Nat) (policy : Nat) (select : Option Nat)
  | dispatched (id now : Nat)
  | setEpoch (id : Nat) (epoch : String)
  | setSampleContext (id : Nat) (context : Json)
  | onSuccess (id callback : Nat)
  | observeResponseUsage (id : Nat) (value : Json)
  | finish (id : Nat) (success : Bool) (now : Nat)
  | drop (id : Nat)
  /-- The destructor of a reservation that was never sent calls `finish(false)`. -/
  | dropFinish (id now : Nat)
  | observeEpoch (url epoch : String)
  /-- Observer `o` releases the `i`-th of its remaining identities. -/
  | observeRelease (o i : Nat)
  /-- One cycle of the health checker over these workers. -/
  | healthCycle (workers : List Nat)
  /-- The health checker resets the next of the loads it set out to reset. -/
  | resetLoad

def LOAD_RESET_INTERVAL : Nat := 10

/-- The reservation is in the given phase; its methods need it live. -/
def System.inPhase (s : System) (id : Nat) (phase : Phase) : Bool :=
  (s.reservations[id]?).any fun r => r.phase = phase

def step (url : Nat → String) (s : System) : Event → Option System
  | .reserve workers policy select => some (selectAndReserve workers policy select s)
  | .dispatched id now =>
    if s.inPhase id .live then
      if s.attempts.contains id then
        let s := s.updateAttempt id fun a => { a with state := .dispatched }
        let s := s.updateReservation id fun r =>
          -- the time of the first dispatch stays
          { r with dispatched_at := r.dispatched_at.or (some now) }
        some { s with log := .dispatched id :: s.log }
      else some s
    else none
  | .setEpoch id epoch =>
    if s.inPhase id .live then some (s.updateAttempt id fun a => { a with epoch := some epoch })
    else none
  | .setSampleContext id context =>
    if s.inPhase id .live then
      some (s.updateReservation id fun r => { r with sample_context := context.obj? })
    else none
  | .onSuccess id callback =>
    if s.inPhase id .live then
      some (s.updateReservation id fun r => { r with on_success := some callback })
    else none
  | .observeResponseUsage id value =>
    if s.inPhase id .live then
      some (s.updateReservation id fun r => r.observeResponseUsage value)
    else none
  | .finish id success now =>
    if s.inPhase id .live then some (finish url id success now s) else none
  | .drop id => if s.inPhase id .live then some (dropEnter id s) else none
  | .dropFinish id now =>
    if s.inPhase id .dropping then
      some ((finish url id false now s).updateReservation id fun r =>
        { r with phase := .dropped })
    else none
  | .observeEpoch worker_url epoch =>
    -- collected under the lock, released later, one by one
    let ids := collectIds url worker_url epoch s.attempts
    some { s with observers := s.observers ++ [⟨worker_url, epoch, ids⟩] }
  | .observeRelease o i =>
    match s.observers[o]? with
    | some observer =>
      match observer.ids[i]? with
      | some (id, _) =>
        some { (release url id false s).1 with
          observers := s.observers.modify o fun ob => { ob with ids := ob.ids.eraseIdx i } }
      | none => none
    | none => none
  | .healthCycle workers =>
    if s.resets = [] then
      let check_count := s.check_count + 1
      some { s with
        check_count := check_count
        resets := if LOAD_RESET_INTERVAL ∣ check_count then workers else [] }
    else none
  | .resetLoad =>
    match s.resets with
    | worker :: resets => some { s with loads := setLoad s.loads worker 0, resets := resets }
    | [] => none

end CodexRouter.Ledger
