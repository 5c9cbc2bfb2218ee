import Mathlib.Tactic

set_option autoImplicit false

/-! # JSON values

What a JSON parser hands to a program: integers and floating-point numbers are told apart, and
an object is the list of its members, each key once.
-/

namespace CodexRouter.Lib

/-- A floating-point number; finite values are taken exactly. -/
inductive Flt
  | finite (q : ℚ)
  | infinite (negative : Bool)
  | nan
deriving DecidableEq

inductive Json
  | null
  | bool (b : Bool)
  | int (n : Int)
  | float (x : Flt)
  | str (s : String)
  | arr (items : List Json)
  | obj (members : List (String × Json))

namespace Json

/-- The value of a key, `none` also for a value that is not an object. -/
def get? : Json → String → Option Json
  | .obj members, key => (members.find? fun m => m.1 = key).map Prod.snd
  | _, _ => none

def str? : Json → Option String
  | .str s => some s
  | _ => none

def arr? : Json → Option (List Json)
  | .arr items => some items
  | _ => none

def obj? : Json → Option (List (String × Json))
  | .obj members => some members
  | _ => none

/-- An integer in the range of an unsigned 64-bit number. -/
def u64? : Json → Option Nat
  | .int n => if 0 ≤ n ∧ n < 2 ^ 64 then some n.toNat else none
  | _ => none

end Json

end CodexRouter.Lib
