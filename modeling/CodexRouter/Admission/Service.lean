import CodexRouter.Admission.Snapshot
import CodexRouter.Lib.Run
import CodexRouter.Lib.Table

set_option autoImplicit false

/-! # The admission service: calls, connections and handler steps

All connections share one table of calls. A handler runs without interruption between two
`await`s, so a step of the system is what one handler does with one line, or with the end of
its input, or with an exception that an `await` raises. `dispatch` may also be called from
outside, by the learner that updates the scores.

Clock readings may be any rationals. Nothing here needs them to grow.
-/

namespace CodexRouter.Admission

open CodexRouter.Lib

/-! ## Data -/

/-- The parameters the constructor accepts. -/
structure Config where
  slots : Nat
  rate : ℚ
  snapshot : Bool
  slots_pos : 1 ≤ slots
  rate_nonneg : 0 ≤ rate

structure Identity where
  client_id : String
  thread_id : String
  turn_id : String
  call_id : String
deriving DecidableEq, Repr

inductive CallState
  | queued
  | granted
deriving DecidableEq, Repr

/-- A call; `writer` names the connection that its replies go to. The time of the grant goes
to the trace file only and is left out. -/
structure Call where
  identity : Identity
  cwd : String
  tool : String
  writer : Nat
  queued_at : ℚ
  state : CallState
deriving DecidableEq

/-- The table of calls in order of arrival, each under its own identity. -/
structure Calls where
  table : Table Identity Call
  keyed : ∀ e ∈ table.entries, e.2.identity = e.1

namespace Calls

def empty : Calls := ⟨Table.empty, fun _ h => absurd h List.not_mem_nil⟩

def get? (calls : Calls) (key : Identity) : Option Call := calls.table.get? key

def contains (calls : Calls) (key : Identity) : Bool := calls.table.contains key

def values (calls : Calls) : List Call := calls.table.values

/-- Set the entry of a call, under its identity. -/
def insert (calls : Calls) (call : Call) : Calls :=
  ⟨calls.table.insert call.identity call, fun e he => by
    rcases Table.mem_insert.mp he with rfl | ⟨_, he⟩
    · rfl
    · exact calls.keyed e he⟩

def erase (calls : Calls) (key : Identity) : Calls :=
  ⟨calls.table.erase key, fun e he => calls.keyed e (Table.mem_erase.mp he).2⟩

def queued (calls : Calls) : List Call := calls.values.filter fun call => call.state = .queued

def granted (calls : Calls) : Nat := calls.values.countP fun call => call.state = .granted

end Calls

/-- What the service writes to a connection. -/
inductive Reply
  | status (state : CallState)
  | released
  | error
deriving DecidableEq, Repr

/-- A connection: the locals of its handler, whether the handler still runs, and what was
written to it, the newest first. -/
structure Conn where
  owned : Option Identity
  terminal : Bool
  running : Bool
  replies : List Reply
deriving DecidableEq

def Conn.init : Conn := ⟨none, false, true, []⟩

structure System where
  known : Scores
  calls : Calls
  conns : List Conn

def System.init : System := ⟨Scores.init, Calls.empty, []⟩

def System.updateConn (s : System) (c : Nat) (f : Conn → Conn) : System :=
  { s with conns := s.conns.modify c f }

/-- `writer.write`. -/
def System.write (s : System) (c : Nat) (reply : Reply) : System :=
  s.updateConn c fun conn => { conn with replies := reply :: conn.replies }

/-- `self.calls.pop(owned, None)`. -/
def System.pop (s : System) (key : Identity) : System := { s with calls := s.calls.erase key }

/-! ## `dispatch` -/

variable (cfg : Config)

def priority (env : Env) (known : Scores) (call : Call) : Except Exn ℚ := do
  let key ← keyFor env known call.cwd
  return known.get key + cfg.rate * (env.monotonic - call.queued_at)

/-- The order in which waiting calls are served: by priority, then by arrival. -/
def Before (a b : ℚ × Call) : Prop :=
  b.1 < a.1 ∨ b.1 = a.1 ∧ a.2.queued_at ≤ b.2.queued_at

instance : DecidableRel Before := fun a b => by unfold Before; infer_instance

/-- The waiting calls with their priorities, in the order of service. -/
def rank (env : Env) (known : Scores) (calls : Calls) : Except Exn (List (ℚ × Call)) := do
  let ranked ← calls.queued.mapM fun call => do return (← priority cfg env known call, call)
  return ranked.insertionSort Before

def grant (s : System) (call : Call) : System :=
  { s with calls := s.calls.insert { call with state := .granted } }.write
    call.writer (.status .granted)

/-- `dispatch`, with the exception it raises. An exception leaves before anything is granted,
but what `refresh` read stays. -/
def dispatch (env : Env) (s : System) : System × Option Exn :=
  match refresh cfg.snapshot env s.known with
  | (known, some exn) => ({ s with known := known }, some exn)
  | (known, none) =>
    let s := { s with known := known }
    match rank cfg env known s.calls with
    | .error exn => (s, some exn)
    | .ok waiting =>
      -- the free slots are counted once, before the grants
      (((waiting.map Prod.snd).take (cfg.slots - s.calls.granted)).foldl grant s, none)

/-! ## `handle` -/

/-- `message.get(name)` for a field that has to be a string of 1 to 4096 characters. -/
def field (message : Json) (name : String) : Except Exn String :=
  match (message.get? name).bind Json.str? with
  | some value => if value ≠ "" ∧ value.length ≤ 4096 then .ok value else .error .valueError
  | none => .error .valueError

structure Enqueue where
  key : Identity
  cwd : String
  tool : String
deriving DecidableEq

def parseEnqueue (message : Json) : Except Exn Enqueue := do
  let client_id ← field message "client_id"
  let thread_id ← field message "thread_id"
  let turn_id ← field message "turn_id"
  let call_id ← field message "call_id"
  let cwd ← field message "cwd"
  let tool ← field message "tool"
  return ⟨⟨client_id, thread_id, turn_id, call_id⟩, cwd, tool⟩

/-- What an `enqueue` on a connection that has none yet does before it dispatches. -/
def entered (c : Nat) (request : Enqueue) (queued_at : ℚ) (s : System) : System :=
  let s := s.updateConn c fun conn => { conn with owned := some request.key }
  let call : Call := ⟨request.key, request.cwd, request.tool, c, queued_at, .queued⟩
  { s with calls := s.calls.insert call }.write c (.status .queued)

def enqueueNew (c : Nat) (request : Enqueue) (queued_at : ℚ) (env : Env) (s : System) :
    System × Option Exn :=
  -- the refused request leaves no trace, and the connection owns nothing
  if s.calls.contains request.key ∨ 4096 ≤ s.calls.table.size then (s, some .valueError)
  else
    match dispatch cfg env (entered c request queued_at s) with
    | (s, some exn) => (s, some exn)
    | (s, none) =>
      -- the learner is asked for a missing score, which touches nothing here
      match keyFor env s.known request.cwd with
      | .error exn => (s, some exn)
      | .ok _ => (s, none)

/-- An `enqueue` on a connection that owns `key`: the status of the call is repeated. -/
def enqueueAgain (c : Nat) (conn : Conn) (key : Identity) (request : Enqueue) (s : System) :
    System × Option Exn :=
  if request.key ≠ key ∨ conn.terminal then (s, some .valueError)
  else
    match s.calls.get? request.key with
    | none => (s, some .keyError)
    | some existing =>
      if request.cwd ≠ existing.cwd ∨ request.tool ≠ existing.tool then (s, some .valueError)
      else (s.write c (.status existing.state), none)

/-- What a `cancel` or `release` on a connection that owns `key` does before it dispatches. -/
def released (c : Nat) (key : Identity) (s : System) : System :=
  ((s.pop key).updateConn c fun conn => { conn with terminal := true }).write c .released

inductive Operation
  | enqueue
  | cancelOrRelease
  | other
deriving DecidableEq, Repr

/-- The operation a message names; `message.get` exists for objects only. -/
def operation : Json → Except Exn Operation
  | .obj members =>
    match (Json.obj members).get? "op" with
    | some (.str op) =>
      if op = "enqueue" then .ok .enqueue
      else if op = "cancel" ∨ op = "release" then .ok .cancelOrRelease
      else .ok .other
    | _ => .ok .other
  | _ => .error .attributeError

/-- One round of the loop of `handle`, up to `drain`. -/
def handleMessage (c : Nat) (conn : Conn) (message : Json) (queued_at : ℚ) (env : Env)
    (s : System) : System × Option Exn :=
  match operation message with
  | .error exn => (s, some exn)
  | .ok .enqueue =>
    match parseEnqueue message with
    | .error exn => (s, some exn)
    | .ok request =>
      match conn.owned with
      | some key => enqueueAgain c conn key request s
      | none => enqueueNew cfg c request queued_at env s
  | .ok .cancelOrRelease =>
    match conn.owned with
    | some key => dispatch cfg env (released c key s)
    | none => (s, some .valueError)
  | .ok .other => (s, some .valueError)

/-- The `finally` block of `handle`. An exception of this dispatch ends the handler as well. -/
def finish (c : Nat) (env : Env) (s : System) : System :=
  let s :=
    match s.conns[c]? with
    | some conn =>
      match conn.owned, conn.terminal with
      -- a call that was neither cancelled nor released gives its slot back here
      | some key, false => (dispatch cfg env (s.pop key)).1
      | _, _ => s
    | none => s
  s.updateConn c fun conn => { conn with running := false }

/-- What becomes of a handler in which `exn` is raised. -/
def abort (c : Nat) (exn : Exn) (env : Env) (s : System) : System :=
  finish cfg c env (if exn.caughtByHandle then s.write c .error else s)

/-! ## Steps -/

inductive Event
  | connect
  /-- The handler of `c` reads a line; `loads` is what `json.loads` makes of it. `env` is what
  the dispatch for the message finds, `env'` what that of the `finally` block would. -/
  | line (c : Nat) (loads : Except Exn Json) (queued_at : ℚ) (env env' : Env)
  | eof (c : Nat) (env : Env)
  /-- An `await` of the handler of `c` raises. -/
  | fail (c : Nat) (exn : Exn) (env : Env)
  | dispatch (env : Env)

/-- The connection whose handler takes the step. -/
def Event.conn : Event → Option Nat
  | .line c _ _ _ _ | .eof c _ | .fail c _ _ => some c
  | .connect | .dispatch _ => none

def handleLine (c : Nat) (conn : Conn) (loads : Except Exn Json) (queued_at : ℚ) (env env' : Env)
    (s : System) : System :=
  match loads with
  | .error exn => abort cfg c exn env' s
  | .ok message =>
    match handleMessage cfg c conn message queued_at env s with
    | (s, none) => s
    | (s, some exn) => abort cfg c exn env' s

/-- One step; only a handler that still runs takes one. -/
def step (s : System) (e : Event) : Option System :=
  match e with
  | .connect => some { s with conns := s.conns ++ [Conn.init] }
  | .dispatch env => some (dispatch cfg env s).1
  | .line c loads queued_at env env' =>
    match s.conns[c]? with
    | some conn =>
      if conn.running then some (handleLine cfg c conn loads queued_at env env' s) else none
    | none => none
  | .eof c env =>
    match s.conns[c]? with
    | some conn => if conn.running then some (finish cfg c env s) else none
    | none => none
  | .fail c exn env =>
    match s.conns[c]? with
    | some conn => if conn.running then some (abort cfg c exn env s) else none
    | none => none

end CodexRouter.Admission
