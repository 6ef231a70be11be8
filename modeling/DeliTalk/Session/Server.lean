import DeliTalk.Order.Turn
import DeliTalk.Session

/-!
# The server's side of a session

The server makes whatever it understands until it is told goodbye. What it does not understand it
answers with silence and the sandwich as it is.

* `Server.start`: the pantry is filled.
* `Server.receive`: one message, and everything up to the answer.
-/

namespace DeliTalk.Server

variable {R : Type} [Scalar R]

/-- A server between two messages. -/
structure Serving where
  turn : Nat := 0
  greeted : Bool := false
  sandwich : Sandwich := {}
deriving Inhabited

/-- Fills the pantry for an empty sandwich. -/
def start (a : Agent R) : Act (Seat R) Serving := do
  let order : Order := { maxFailures := a.config.maxFailures }
  Seat.atTable (Table.reorder fun _ => order)
  let names := a.lexicon.taxonomy.leafNames
  Seat.minded (Mind.change (·.restock names a.config.stockPerIngredient))
  return {}

/-- The first goodbye is a greeting, the second one finishes the sandwich. -/
def greet (a : Agent R) (s : Serving) : Act (Seat R) (Progress Serving Sandwich) := do
  if s.greeted then
    let sandwich := { s.sandwich with complete := true }
    a.say .server s.turn (some .finish) (some sandwich)
    Seat.save
    return .finished sandwich
  else
    a.say .server s.turn (some .finish) (some s.sandwich)
    return .await { s with greeted := true, turn := s.turn + 1 }

/-- Serves what was understood. -/
def serve (a : Agent R) (s : Serving) (reading : Reading R) :
    Act (Seat R) (Progress Serving Sandwich) := do
  let (sandwich, answer) ← Seat.atTable
    (Order.serve reading.operation reading.skills reading.lex s.sandwich)
  a.say .server s.turn answer (some sandwich)
  Seat.save
  return .await { s with sandwich := sandwich, turn := s.turn + 1 }

/-- Takes one message. -/
def receive (a : Agent R) (s : Serving) (m : Message) :
    Act (Seat R) (Progress Serving Sandwich) := do
  let reading ← Seat.minded (a.understand m.text)
  a.pause
  match reading with
  | none =>
    a.say .server s.turn none (some s.sandwich)
    return .await { s with turn := s.turn + 1 }
  | some reading =>
    match reading.operation with
    | .finish => greet a s
    | _ => serve a s reading

end DeliTalk.Server
