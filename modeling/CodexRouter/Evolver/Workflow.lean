import CodexRouter.Evolver.Effective
import CodexRouter.Lib.Run
import CodexRouter.Lib.Search

set_option autoImplicit false

/-! # Answering a comparison

`TaskEvolver.answer` and `TaskEvolver.refit` of `task_evolver/workflow.py` and `normalize_key` of
`task_evolver/expansion.py`. The expander, and the fit with the update of the importance table,
do anything: a question carries what they return or raise. So is the normal form of Unicode text
a function `nfkc` that may be any.
-/

namespace CodexRouter.Evolver

open Lib

/-! ## Keys -/

/-- A value where a task key is expected. -/
inductive KeyArg
  | text (s : String)
  | notText

def maxKeys : Nat := 4

def maxKeyLength : Nat := 160

/-- The characters at which `str.split()` splits. -/
def isSpace (c : Char) : Bool :=
  let n := c.toNat
  (9 ≤ n ∧ n ≤ 13) ∨ (28 ≤ n ∧ n ≤ 32) ∨ n = 0x85 ∨ n = 0xa0 ∨ n = 0x1680 ∨
    (0x2000 ≤ n ∧ n ≤ 0x200a) ∨ n = 0x2028 ∨ n = 0x2029 ∨ n = 0x202f ∨ n = 0x205f ∨ n = 0x3000

def normalizeKey (nfkc : String → String) : KeyArg → Except PyError Key
  | .notText => .error (.type "task key must be text")
  | .text s =>
    let words := ((nfkc s).toList.splitOnP isSpace).filter fun word => word ≠ []
    let key := List.intercalate [' '] words
    if key = [] ∨ key.length > maxKeyLength then
      .error (.value "task key must contain 1 to 160 characters")
    else .ok (String.ofList key)

/-! ## Exceptions -/

/-- An exception: the name of its class and the class of those told apart that it belongs to. -/
structure Raised where
  name : String
  error : PyError
  deriving DecidableEq

/-- An exception that this code raises itself. -/
def PyError.raised (e : PyError) : Raised :=
  match e with
  | .value _ => ⟨"ValueError", e⟩
  | .type _ => ⟨"TypeError", e⟩
  | .runtime _ => ⟨"RuntimeError", e⟩
  | .os _ => ⟨"OSError", e⟩
  | .other _ => ⟨"Exception", e⟩

/-- What `answer` raises. The check of `refit` is kept apart from all else. -/
inductive Failure
  | disconnected
  | raised (e : Raised)
  deriving DecidableEq

def Failure.toRaised : Failure → Raised
  | .disconnected => (PyError.value "all comparisons must connect to the reference key").raised
  | .raised e => e

/-! ## The check before a fit -/

/-- The keys of the adjacency table. -/
def adjacentKeys (refKey : Key) (pairs : List Pair) : List Key :=
  refKey :: pairs.flatMap fun p => [p.aKey, p.bKey]

/-- `adjacent[key]`. -/
def adjacent (pairs : List Pair) (key : Key) : List Key :=
  pairs.flatMap fun p =>
    (if p.aKey = key then [p.bKey] else []) ++ (if p.bKey = key then [p.aKey] else [])

/-- The keys that the loop of `refit` reaches. -/
def reached (refKey : Key) (pairs : List Pair) : List Key :=
  search (adjacent pairs) (adjacentKeys refKey pairs).length [refKey] [refKey]

def refit (refKey : Key) (rows : Rows) (fit : Except Raised Nat) : Except Failure Nat :=
  let pairs := effective rows
  let keys := adjacentKeys refKey pairs
  if (∀ key ∈ reached refKey pairs, key ∈ keys) ∧ ∀ key ∈ keys, key ∈ reached refKey pairs then
    match fit with
    | .ok version => .ok version
    | .error e => .error (.raised e)
  else .error .disconnected

/-! ## Expansion -/

/-- What `expander.expand` does for one key. -/
inductive Expansion
  | raises (e : Raised)
  | notList
  | aliases (keys : List KeyArg)

/-- The arguments of `answer`, and what it is told by the expander and by the fits. -/
structure Question where
  aKey : KeyArg
  bKey : KeyArg
  score : Number
  firstFit : Except Raised Nat
  aExpansion : Expansion
  bExpansion : Expansion
  secondFit : Except Raised Nat

structure AnswerResult where
  pairId : Option Nat
  fitVersion : Nat
  expandedCount : Nat
  expansionError : Option String
  deriving DecidableEq

variable (nfkc : String → String)

/-- The aliases of one key that are not known, with the comparison `pair` makes of each. -/
def addAliases (pair : Key → Key × Key) :
    List KeyArg → List Key → List (Key × Key) → Except PyError (List Key × List (Key × Key))
  | [], known, candidates => .ok (known, candidates)
  | arg :: rest, known, candidates =>
    match normalizeKey nfkc arg with
    | .error e => .error e
    | .ok key =>
      if key ∈ known then addAliases pair rest known candidates
      else addAliases pair rest (key :: known) (candidates ++ [pair key])

def expandKey (pair : Key → Key × Key) (expansion : Expansion) (known : List Key)
    (candidates : List (Key × Key)) : Except Raised (List Key × List (Key × Key)) :=
  match expansion with
  | .raises e => .error e
  | .notList => .error (PyError.value "expansion must return at most four keys").raised
  | .aliases keys =>
    if keys.length > maxKeys then
      .error (PyError.value "expansion must return at most four keys").raised
    else
      match addAliases nfkc pair keys known candidates with
      | .error e => .error e.raised
      | .ok found => .ok found

def candidatesOf (q : Question) (aKey bKey : Key) (known : List Key) :
    Except Raised (List (Key × Key)) :=
  match expandKey nfkc (fun key => (key, bKey)) q.aExpansion known [] with
  | .error e => .error e
  | .ok (known, candidates) =>
    match expandKey nfkc (fun key => (aKey, key)) q.bExpansion known candidates with
    | .error e => .error e
    | .ok (_, candidates) => .ok candidates

/-- The arguments with which a candidate is recorded. -/
def childCall (candidate : Key × Key) (score weight : ℚ) (parent : Option Nat) : RecordCall :=
  { aKey := candidate.1
    bKey := candidate.2
    pAWins := .finite score
    source := "expanded"
    weight := .finite weight
    parentPairId := parent }

/-- Record the candidates one after the other, up to one that raises; the count is of those that
were not refused. -/
def recordChildren (score weight : ℚ) (parent : Option Nat) :
    List (Key × Key) → Nat → Rows → Nat × Option PyError × Rows
  | [], count, rows => (count, none, rows)
  | candidate :: rest, count, rows =>
    match record (childCall candidate score weight parent) rows with
    | (.error e, rows) => (count, some e, rows)
    | (.ok child, rows) =>
      recordChildren score weight parent rest (if child = none then count else count + 1) rows

/-- The `except` clause. -/
def handled (pairId : Option Nat) (version count : Nat) (e : Raised) :
    Except Failure AnswerResult :=
  match e.error with
  | .other _ => .error (.raised e)
  | _ => .ok ⟨pairId, version, count, some e.name⟩

/-- The `try` block. -/
def expandAnswer (refKey : Key) (q : Question) (aKey bKey : Key) (score : ℚ)
    (pairId : Option Nat) (version : Nat) (rows : Rows) : Except Failure AnswerResult × Rows :=
  match candidatesOf nfkc q aKey bKey (keys rows) with
  | .error e => (handled pairId version 0 e, rows)
  | .ok candidates =>
    match recordChildren score (expandedWeightCap / candidates.length) pairId candidates 0
      rows with
    | (count, some e, rows) => (handled pairId version count e.raised, rows)
    | (count, none, rows) =>
      -- with no new child there is nothing to fit again
      if count = 0 then (.ok ⟨pairId, version, count, none⟩, rows)
      else
        match refit refKey rows q.secondFit with
        | .ok version => (.ok ⟨pairId, version, count, none⟩, rows)
        | .error e => (handled pairId version count e.toRaised, rows)

/-! ## Answers -/

/-- The checks at the start of `answer`, with the normal keys, the score and the weight. -/
def checkQuestion (refKey : Key) (rows : Rows) (q : Question) :
    Except PyError (Key × Key × ℚ × ℚ) :=
  match normalizeKey nfkc q.aKey with
  | .error e => .error e
  | .ok aKey =>
    match normalizeKey nfkc q.bKey with
    | .error e => .error e
    | .ok bKey =>
      match validatePairValues q.score (.finite 1) with
      | .error e => .error e
      | .ok (score, weight) =>
        let known := keys rows
        -- the keys are those before the answer is recorded
        if known = [] ∧ refKey ∉ [aKey, bKey] then
          .error (.value "the first comparison must include the reference key")
        else if known ≠ [] ∧ (refKey ∉ known ∨ (aKey ∉ known ∧ bKey ∉ known)) then
          .error (.value "comparison must connect to the existing reference group")
        else .ok (aKey, bKey, score, weight)

/-- The arguments with which an answer is recorded. -/
def humanCall (aKey bKey : Key) (score weight : ℚ) : RecordCall :=
  { aKey, bKey
    pAWins := .finite score
    source := "human"
    weight := .finite weight
    parentPairId := none }

def answer (refKey : Key) (rows : Rows) (q : Question) : Except Failure AnswerResult × Rows :=
  match checkQuestion nfkc refKey rows q with
  | .error e => (.error (.raised e.raised), rows)
  | .ok (aKey, bKey, score, weight) =>
    match record (humanCall aKey bKey score weight) rows with
    | (.error e, rows) => (.error (.raised e.raised), rows)
    | (.ok pairId, rows) =>
      -- the answer is in the store by now, whatever the fit says
      match refit refKey rows q.firstFit with
      | .error e => (.error e, rows)
      | .ok version => expandAnswer nfkc refKey q aKey bKey score pairId version rows

/-! ## Sequences of answers -/

/-- The store, and how the last answer ended. -/
structure System where
  rows : Rows
  outcome : Option (Except Failure AnswerResult)

def System.init : System := { rows := [], outcome := none }

def step (refKey : Key) (s : System) (q : Question) : Option System :=
  let (outcome, rows) := answer nfkc refKey s.rows q
  some { rows, outcome := some outcome }

end CodexRouter.Evolver
