import CodexRouter.Lib.Run
import CodexRouter.LocalScheduler.Basic

set_option autoImplicit false

/-! # The local tool scheduler: its lock-atomic steps

`admit` is a future that takes the scheduler's lock twice: once on entering, and once more
when it is polled after its wait is over. Between the two it holds a receiver and an armed
guard, and any other task may take the lock. `System` is the locked state together with
every admission made so far; `step` is one critical section of one of them.

The second critical section decides on an outcome computed before the lock is taken. For a
message in the channel this makes no difference, since a sent message stays. For the timer
it does: once the timer has fired the receiver is gone, and whatever the other side sends
until the lock is taken again is lost. So the firing of the timer is a step of its own
(`Event.expire`). Dropping a waiting future is two steps as well: the receiver goes first
(`Event.closeReceiver`), then the guard releases the key under the lock (`Event.drop`).
-/

namespace CodexRouter.LocalScheduler

open CodexRouter.Lib

/-! ## Admissions and their channels -/

inductive Grant
  | granted
  | cancelled
deriving DecidableEq, Repr

/-- The one-shot channel of a waiting admission, as its receiver sees it. -/
inductive Channel
  | empty
  | sent (message : Grant)
  /-- The sender was dropped without sending. -/
  | closed
deriving DecidableEq, Repr

/-- Where an `admit` future stands. -/
inductive Phase
  /-- Suspended in `timeout(grant_timeout, grant)`, receiver alive, guard armed. -/
  | awaiting
  /-- The timer has fired in a poll; the receiver is gone, the lock not yet taken. -/
  | expired
  /-- Being dropped: the receiver is gone, the guard has not yet released the key. -/
  | closing
  /-- Suspended for ever in `pending`, guard disarmed. -/
  | parked
  | returned
  | dropped
deriving DecidableEq, Repr

structure Admit where
  key : CallKey
  phase : Phase
  grant : Channel
deriving DecidableEq, Repr

/-- The locked state and every admission so far; the index of an admission in `admits`
names it. -/
structure System where
  state : State
  admits : List Admit

def System.init : System := ⟨⟨Table.empty, []⟩, []⟩

/-- `oneshot::Sender::send`: the message arrives if the receiver still exists. -/
def send (admits : List Admit) (a : Nat) (message : Grant) : List Admit × Bool :=
  match admits[a]? with
  | some ad =>
    if ad.phase = .awaiting then
      (admits.modify a fun ad => { ad with grant := .sent message }, true)
    else (admits, false)
  | none => (admits, false)

/-- Dropping a sender that has not sent. -/
def dropSender (admits : List Admit) (a : Nat) : List Admit :=
  admits.modify a fun ad => { ad with grant := .closed }

def setPhase (admits : List Admit) (a : Nat) (phase : Phase) : List Admit :=
  admits.modify a fun ad => { ad with phase := phase }

/-! ## `release_matching` -/

/-- The first loop of `release_matching`: take every matching waiter out and tell it that it
is cancelled. `fuel` bounds the iterations; each either removes a waiter or moves on. -/
def cancelWaiting (hit : CallKey → Bool) : (fuel index : Nat) → System → System
  | 0, _, s => s
  | fuel + 1, index, s =>
    match s.state.waiting[index]? with
    | none => s
    | some waiter =>
      if hit waiter.key then
        -- the last waiter has moved to this index, which is looked at again
        cancelWaiting hit fuel index
          { state := { s.state with waiting := swapRemove s.state.waiting index }
            admits := (send s.admits waiter.grant .cancelled).1 }
      else cancelWaiting hit fuel (index + 1) s

variable {σ : Type} (sc : Scheduler σ)

/-- The last loop of `release_matching`: while a slot is free, grant it to the waiter that
`pick` chooses. A waiter whose receiver is gone is taken out and not started. -/
def grantLoop : (fuel : Nat) → σ → System → System
  | 0, _, s => s
  | fuel + 1, env, s =>
    if s.state.running.size < sc.max_concurrent then
      match sc.pick env s.state.waiting with
      | (none, _) => s
      | (some index, env) =>
        match s.state.waiting[index]? with
        | none => s
        | some waiter =>
          let state := { s.state with waiting := swapRemove s.state.waiting index }
          match send s.admits waiter.grant .granted with
          | (admits, true) =>
            grantLoop fuel env ⟨state.start waiter.key waiter.features false, admits⟩
          -- nobody waits for this grant: the slot is still free
          | (admits, false) => grantLoop fuel env ⟨state, admits⟩
    else s

/-- Release the running calls and cancel the waiting ones whose key `hit` accepts, then fill
the free slots. Both loops stop on their own: each round takes a waiter out or moves past
one, so the number of waiters is fuel enough. -/
def releaseMatching (hit : CallKey → Bool) (env : σ) (s : System) : System :=
  let s := cancelWaiting hit s.state.waiting.length 0 s
  let s := { s with state := { s.state with
    running := s.state.running.filter fun e => !hit e.1 } }
  grantLoop sc s.state.waiting.length env s

def release (key : CallKey) (env : σ) (s : System) : System :=
  releaseMatching sc (fun candidate => candidate = key) env s

def releaseThread (thread_id : String) (env : σ) (s : System) : System :=
  releaseMatching sc (fun key => key.thread_id = thread_id) env s

/-! ## `admit` -/

/-- The first critical section of `admit`. -/
def admitEnter (key : CallKey) (features : TaskFeatures) (s : System) : System :=
  if s.state.running.size < sc.max_concurrent then
    ⟨s.state.start key features false, s.admits ++ [⟨key, .returned, .empty⟩]⟩
  else
    ⟨{ s.state with waiting := s.state.waiting ++ [⟨key, features, s.admits.length⟩] },
      s.admits ++ [⟨key, .awaiting, .empty⟩]⟩

/-- What `timeout(grant_timeout, grant).await` evaluated to. -/
inductive Outcome
  | message (grant : Grant)
  | senderLost
  | elapsed
deriving DecidableEq, Repr

/-- The outcome with which an admission is ready to take the lock again, `none` while it has
to go on waiting. -/
def Admit.outcome (ad : Admit) : Option Outcome :=
  match ad.phase, ad.grant with
  | .awaiting, .sent message => some (.message message)
  | .awaiting, .closed => some .senderLost
  | .expired, _ => some .elapsed
  | _, _ => none

/-- Start the call although no slot was granted. The features come from its waiter if it
still has one. -/
def failOpen (key : CallKey) (now : Nat) (s : System) : System :=
  match s.state.waiting.findIdx? fun waiter => waiter.key = key with
  | some index =>
    match s.state.waiting[index]? with
    | some waiter =>
      ⟨State.start { s.state with waiting := swapRemove s.state.waiting index }
        key waiter.features true, dropSender s.admits waiter.grant⟩
    | none => s
  -- without its waiter the features are lost
  | none => ⟨s.state.start key ⟨"", "", now⟩ true, s.admits⟩

/-- The second critical section of admission `a`, entered with `outcome`. -/
def admitResume (a : Nat) (key : CallKey) (outcome : Outcome) (now : Nat) (s : System) :
    System :=
  if s.state.running.contains key then { s with admits := setPhase s.admits a .returned }
  else
    match outcome with
    | .message .cancelled => { s with admits := setPhase s.admits a .parked }
    -- granted and released again before this poll
    | .message .granted => { s with admits := setPhase s.admits a .parked }
    | .senderLost | .elapsed =>
      let s := failOpen key now s
      { s with admits := setPhase s.admits a .returned }

/-! ## Steps -/

/-- One critical section, or one of the two moments at which a receiver goes away. `env` is
what the scorer reads in the grant loop of that step. -/
inductive Event (σ : Type)
  | enter (key : CallKey) (features : TaskFeatures)
  | expire (a : Nat)
  | resume (a : Nat) (now : Nat)
  | closeReceiver (a : Nat)
  | drop (a : Nat) (env : σ)
  | release (key : CallKey) (env : σ)
  | releaseThread (thread_id : String) (env : σ)

def step (s : System) : Event σ → Option System
  | .enter key features => some (admitEnter sc key features s)
  | .expire a =>
    match s.admits[a]? with
    | some ad =>
      -- a message that is there wins over the timer
      if ad.phase = .awaiting ∧ ad.grant = .empty then
        some { s with admits := setPhase s.admits a .expired }
      else none
    | none => none
  | .resume a now =>
    match s.admits[a]? with
    | some ad => ad.outcome.map fun outcome => admitResume a ad.key outcome now s
    | none => none
  | .closeReceiver a =>
    match s.admits[a]? with
    | some ad =>
      if ad.phase = .awaiting then some { s with admits := setPhase s.admits a .closing }
      else none
    | none => none
  | .drop a env =>
    match s.admits[a]? with
    | some ad =>
      match ad.phase with
      | .closing =>
        let s := release sc ad.key env s
        some { s with admits := setPhase s.admits a .dropped }
      | .parked => some { s with admits := setPhase s.admits a .dropped }
      | _ => none
    | none => none
  | .release key env => some (release sc key env s)
  | .releaseThread thread_id env => some (releaseThread sc thread_id env s)

end CodexRouter.LocalScheduler
