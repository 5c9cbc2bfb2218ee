import CodexRouter.Lib.Json
import CodexRouter.Lib.Transducer

set_option autoImplicit false

/-! # Forwarding a response

`router/src/routers/http/response_lifecycle.rs`. A streamed response is forwarded chunk by
chunk while a scanner looks for the events of an event stream that end the attempt. The
parser of JSON values is outside this development and is a parameter. What matters of a
response is the sequence of calls on the reservation of the attempt.
-/

namespace CodexRouter.Streaming

open CodexRouter.Lib

/-! ## The scanner -/

/-- The bytes of an ASCII text. -/
def ascii (text : String) : List UInt8 := text.toList.map fun c => c.toNat.toUInt8

def LF : UInt8 := 10

def CR : UInt8 := 13

/-- The longest line, and the longest data of an event. -/
def MAX_LENGTH : Nat := 65536

structure Scanner where
  line : List UInt8
  data : List UInt8
  oversized : Bool
deriving DecidableEq, Repr

def Scanner.init : Scanner := ⟨[], [], false⟩

/-- What the end of an event can show. -/
inductive Item
  | done
  | value (v : Json)

def stripPrefix (start bytes : List UInt8) : Option (List UInt8) :=
  if start.isPrefixOf bytes then some (bytes.drop start.length) else none

/-- `strip_suffix(b"\n")`. -/
def stripNewline (bytes : List UInt8) : List UInt8 :=
  if bytes.getLast? = some LF then bytes.dropLast else bytes

section Scan

variable (parse : List UInt8 → Option Json)

/-- The data of an event at its blank line. -/
def dispatch (data : List UInt8) : Option Item :=
  if stripNewline data = ascii "[DONE]" then some .done
  else (parse (stripNewline data)).map .value

/-- The end of a line, with its carriage return taken off. -/
def Scanner.endLine (s : Scanner) (line : List UInt8) : Scanner × Option Item :=
  if line = [] then
    (Scanner.init, if s.oversized then none else dispatch parse s.data)
  else
    match stripPrefix (ascii "data:") line with
    | none => ({ s with line := [] }, none)
    | some data =>
      let data := (stripPrefix (ascii " ") data).getD data
      if s.data.length + data.length < MAX_LENGTH then
        ({ s with line := [], data := s.data ++ data ++ [LF] }, none)
      else ({ s with line := [], oversized := true }, none)

/-- One round of the loop over the bytes. -/
def Scanner.byte (s : Scanner) (b : UInt8) : Scanner × Option Item :=
  if b ≠ LF then
    if s.line.length < MAX_LENGTH then ({ s with line := s.line ++ [b] }, none)
    else ({ s with oversized := true }, none)
  else s.endLine parse (if s.line.getLast? = some CR then s.line.dropLast else s.line)

end Scan

/-! ## Terminal events -/

/-- What an item makes of the outcome so far. A success is recorded once, a failure always. -/
def Item.mark (terminal : Option Bool) : Item → Option Bool
  | .done => terminal.or (some true)
  | .value v =>
    let terminal := if (v.get? "error").isSome then some false else terminal
    match (v.get? "type").bind Json.str? with
    | some "response.completed" => terminal.or (some true)
    | some "response.failed" => some false
    | some "response.incomplete" => some false
    | some "error" => some false
    | _ => terminal

def Item.observed : Item → List Json
  | .done => []
  | .value v => [v]

section Feed

variable (parse : List UInt8 → Option Json)

/-- `TerminalEvents::feed`: the scanner afterwards, the values observed and what is returned. -/
def feed : Scanner → Option Bool → List UInt8 → Scanner × List Json × Option Bool
  | s, terminal, [] => (s, [], terminal)
  | s, terminal, b :: bytes =>
    match s.byte parse b with
    | (s, none) => feed s terminal bytes
    | (s, some item) =>
      let (s, values, terminal) := feed s (item.mark terminal) bytes
      (s, item.observed ++ values, terminal)

/-! ## Calls on the reservation -/

inductive Call
  | observe (value : Json)
  | finish (success : Bool)

/-- The calls for the chunks of a stream. -/
def chunkCalls (sse : Bool) : Scanner → List (List UInt8) → List Call
  | _, [] => []
  | s, chunk :: chunks =>
    if sse then
      let (s, values, terminal) := feed parse s none chunk
      values.map .observe ++ (terminal.map .finish).toList ++ chunkCalls sse s chunks
    else chunkCalls sse s chunks

/-- A response as the router sees it: `failed` says that reading it broke off. -/
structure Exchange where
  stream : Bool
  background : Bool
  success : Bool
  sse : Bool
  failed : Bool
deriving DecidableEq, Repr

/-- `forward`: the calls on the reservation for a body that arrives in chunks. -/
def forward (x : Exchange) (chunks : List (List UInt8)) : List Call :=
  if ¬ x.stream ∨ ¬ x.success then
    if x.failed then []
    else
      ((parse chunks.flatten).map .observe).toList
        ++ (if ¬ x.background ∨ ¬ x.success then [.finish x.success] else [])
  else
    chunkCalls parse x.sse Scanner.init chunks
      ++ (if ¬ x.sse ∧ ¬ x.background ∧ ¬ x.failed then [.finish true] else [])

end Feed

/-- The outcome that the attempt keeps: `finish` is idempotent, so that the first call counts. -/
def outcome : List Call → Option Bool
  | [] => none
  | .observe _ :: calls => outcome calls
  | .finish success :: _ => some success

/-- The values observed before the outcome. -/
def observedBefore : List Call → List Json
  | [] => []
  | .observe v :: calls => v :: observedBefore calls
  | .finish _ :: _ => []

end CodexRouter.Streaming
