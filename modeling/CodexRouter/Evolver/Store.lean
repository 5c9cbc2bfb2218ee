import CodexRouter.Lib.Table

set_option autoImplicit false

/-! # The pair store of the task evolver

`task_evolver/store.py` and `task_evolver/validation.py`: compared pairs of task keys in a table of
which rows are never deleted, only made inactive. Numbers are exact. An argument that should be a
number may be anything, of which the source tells three kinds apart. `record` runs in a transaction:
an exception takes its writes back.
-/

namespace CodexRouter.Evolver

open Lib

/-! ## Values -/

inductive PyError
  | value (text : String)
  | type (text : String)
  | runtime (text : String)
  | os (text : String)
  | other (text : String)
  deriving DecidableEq

/-- A value where a number is expected: an integer or float that is finite as a float, one that is
not, or something else (a boolean included). -/
inductive Number
  | finite (q : ℚ)
  | nonFinite
  | notNumber

def finiteNumber : Number → Except PyError ℚ
  | .finite q => .ok q
  | .nonFinite => .error (.value "expected a finite number")
  | .notNumber => .error (.type "expected a finite number")

def validatePairValues (probability weight : Number) : Except PyError (ℚ × ℚ) :=
  match finiteNumber probability with
  | .error e => .error e
  | .ok probability =>
    match finiteNumber weight with
    | .error e => .error e
    | .ok weight =>
      if ¬ (0 ≤ probability ∧ probability ≤ 1) then
        .error (.value "probability must be between 0 and 1")
      else if weight ≤ 0 then .error (.value "weight must be positive")
      else .ok (probability, weight)

/-! ## Rows -/

abbrev Key := String

inductive Source
  | human
  | seed
  | expanded
  deriving DecidableEq

/-- `SOURCE_RANK`. -/
def Source.rank : Source → Nat
  | .human => 0
  | .seed => 1
  | .expanded => 2

def Source.ofString? : String → Option Source
  | "human" => some .human
  | "seed" => some .seed
  | "expanded" => some .expanded
  | _ => none

def expandedWeightCap : ℚ := 1 / 5

structure Pair where
  pairId : Nat
  aKey : Key
  bKey : Key
  pAWins : ℚ
  weight : ℚ
  source : Source
  parentPairId : Option Nat
  revision : Nat
  deriving DecidableEq

def Pair.keys (p : Pair) : Key × Key := (p.aKey, p.bKey)

structure Row extends Pair where
  active : Bool
  deriving DecidableEq

/-- The table, in the order of the ids. -/
abbrev Rows := List Row

def activeOn (rows : Rows) (keys : Key × Key) : Rows :=
  rows.filter fun r => r.keys = keys ∧ r.active = true

/-- The active rows with a parent. -/
def childrenOf (rows : Rows) (parentPairId : Option Nat) : Rows :=
  rows.filter fun r => parentPairId ≠ none ∧ r.parentPairId = parentPairId ∧ r.active = true

/-! ## Recording a comparison -/

def canonical (aKey bKey : Key) (pAWins : ℚ) : (Key × Key) × ℚ :=
  if aKey ≤ bKey then ((aKey, bKey), pAWins) else ((bKey, aKey), 1 - pAWins)

/-- `UPDATE pairs SET active = 0 WHERE pair_id = ? OR parent_pair_id = ?`. -/
def deactivate (oldId : Nat) (rows : Rows) : Rows :=
  rows.map fun r =>
    if r.pairId = oldId ∨ r.parentPairId = some oldId then { r with active := false } else r

/-- The active rows on the pair that rank no higher go, with their children. -/
def supersede (keys : Key × Key) (source : Source) (rows : Rows) : Rows :=
  (activeOn rows keys).foldl
    (fun rows old => if old.source.rank ≥ source.rank then deactivate old.pairId rows else rows)
    rows

/-- The weight that is left for one more child of the parent. -/
def expandedWeight (rows : Rows) (parentPairId : Option Nat) (weight : ℚ) : Except PyError ℚ :=
  match rows.find? fun r => some r.pairId = parentPairId ∧ r.active = true with
  | none => .error (.value "expanded parent must be an active human or seed pair")
  | some parent =>
    if parent.source = .expanded then
      .error (.value "expanded parent must be an active human or seed pair")
    -- a seed row below a human one takes no children
    else if (activeOn rows parent.keys).any fun r => r.source.rank < parent.source.rank then
      .error (.value "expanded parent must be the effective source")
    else
      let used := ((childrenOf rows parentPairId).map fun r => r.weight).sum
      .ok (min weight (max (expandedWeightCap - used) 0))

/-- The row of an `INSERT`, with the next revision and the next row id. -/
def newRow (keys : Key × Key) (pAWins weight : ℚ) (source : Source) (parentPairId : Option Nat)
    (rows : Rows) : Row :=
  -- the revisions of inactive rows count as well
  let revisions := (rows.filter fun r => r.keys = keys ∧ r.source = source).map fun r => r.revision
  { pairId := (rows.map fun r => r.pairId).foldr max 0 + 1
    aKey := keys.1
    bKey := keys.2
    pAWins, weight, source, parentPairId
    revision := revisions.foldr max 0 + 1
    active := true }

def insertRow (keys : Key × Key) (pAWins weight : ℚ) (source : Source)
    (parentPairId : Option Nat) (rows : Rows) : Nat × Rows :=
  let row := newRow keys pAWins weight source parentPairId rows
  (row.pairId, rows ++ [row])

/-- The statements inside the transaction; no id means that nothing is recorded. -/
def recordBody (keys : Key × Key) (pAWins weight : ℚ) (source : Source)
    (parentPairId : Option Nat) (rows : Rows) : Except PyError (Option Nat × Rows) :=
  if source = .expanded then
    match expandedWeight rows parentPairId weight with
    | .error e => .error e
    | .ok weight =>
      -- the cap is used up: nothing is recorded and nothing raised
      if weight ≤ 0 then .ok (none, rows)
      else
        let (pairId, rows) := insertRow keys pAWins weight source parentPairId rows
        .ok (some pairId, rows)
  else
    let (pairId, rows) := insertRow keys pAWins weight source parentPairId
      (supersede keys source rows)
    .ok (some pairId, rows)

/-- `with self.conn`: the writes of a body that raises are rolled back. -/
def transaction {α : Type} (body : Rows → Except PyError (α × Rows)) (rows : Rows) :
    Except PyError α × Rows :=
  match body rows with
  | .ok (a, rows') => (.ok a, rows')
  | .error e => (.error e, rows)

/-- The arguments of `record`. -/
structure RecordCall where
  aKey : Key
  bKey : Key
  pAWins : Number
  source : String
  weight : Number
  parentPairId : Option Nat

/-- The checks before the transaction, with what they make of the arguments. -/
def checkArguments (call : RecordCall) : Except PyError ((Key × Key) × ℚ × ℚ × Source) :=
  match Source.ofString? call.source with
  | none => .error (.value ("unknown source '" ++ call.source ++ "'"))
  | some source =>
    if call.aKey = call.bKey then .error (.value "pair keys must differ")
    else
      match validatePairValues call.pAWins call.weight with
      | .error e => .error e
      | .ok (pAWins, weight) =>
        let (keys, p) := canonical call.aKey call.bKey pAWins
        if source ≠ .expanded ∧ call.parentPairId ≠ none then
          .error (.value "only expanded pairs may have a parent")
        else .ok (keys, p, weight, source)

def record (call : RecordCall) (rows : Rows) : Except PyError (Option Nat) × Rows :=
  match checkArguments call with
  | .error e => (.error e, rows)
  | .ok (keys, p, weight, source) =>
    transaction (recordBody keys p weight source call.parentPairId) rows

/-- The table after a sequence of calls. -/
def recorded (calls : List RecordCall) : Rows :=
  calls.foldl (fun rows call => (record call rows).2) []

/-! ## Reading the table -/

/-- One row of the loop of `effective`. -/
def addBest (best : Table (Key × Key) (List Pair)) (pair : Pair) : Table (Key × Key) (List Pair) :=
  match best.get? pair.keys with
  | none => best.insert pair.keys [pair]
  | some [] => best
  | some (first :: others) =>
    if pair.source.rank < first.source.rank then best.insert pair.keys [pair]
    -- only expanded comparisons of one pair stand beside each other
    else if pair.source.rank = first.source.rank ∧ pair.source = .expanded then
      best.insert pair.keys (first :: others ++ [pair])
    else best

def effective (rows : Rows) : List Pair :=
  (((rows.filter fun r => r.active).map Row.toPair).foldl addBest Table.empty).values.flatten

/-- The keys of the active rows. -/
def keys (rows : Rows) : List Key :=
  (((rows.filter fun r => r.active).flatMap fun r => [r.aKey, r.bKey]).dedup).insertionSort
    fun a b => a ≤ b

end CodexRouter.Evolver
