import DeliTalk.Order.Dream
import DeliTalk.Order.Turn
import DeliTalk.Session

/-!
# The customer's side of a session

The customer says hello, then asks for one thing per message until it is satisfied, fed up or out
of turns, says goodbye, and judges what it got.

* `Customer.start`: the order is dreamt up and the greeting sent.
* `Customer.receive`: one answer, and everything up to the next message.
-/

namespace DeliTalk

/-- How one negotiation ended, from the customer's side. -/
structure Outcome (R : Type) where
  session : String
  desired : Sandwich
  result : Sandwich
  score : R
  turns : Int
  gaveUp : Bool

namespace Outcome

variable {R : Type}

/-- An outcome as a document. -/
def toDoc (o : Outcome R) : Doc R :=
  .map [("session_id", .text o.session), ("desired", o.desired.toDoc),
    ("result", o.result.toDoc), ("score", .num o.score), ("turns", .int o.turns),
    ("gave_up", .flag o.gaveUp)]

/-- Reads an outcome. -/
def ofDoc [Scalar R] (d : Doc R) : Check (Outcome R) :=
  d.asRecord.andThen fun fs =>
    let sandwich := Sandwich.ofDoc (Doc.nestingLimit - 1)
    Outcome.mk <$> Doc.field fs "session_id" Doc.asText
      <*> Doc.field fs "desired" sandwich <*> Doc.field fs "result" sandwich
      <*> Doc.field fs "score" Doc.asScalar <*> Doc.field fs "turns" Doc.asInt
      <*> Doc.fieldOr fs "gave_up" Doc.asFlag false

end Outcome

namespace Customer

variable {R : Type} [Scalar R]

/-- What a customer is waiting for: the greeting, the answer to a request, or the goodbye. -/
inductive Phase where
  | greeting | asking | leaving
deriving Repr, DecidableEq

/-- A customer between two messages. -/
structure Waiting where
  phase : Phase
  turn : Nat
  result : Sandwich

/-- The order of a customer: what it dreams of, and as much at once as it has words for. -/
def place (a : Agent R) : Act (Seat R) Unit := do
  let largest ← Act.ofExcept a.lexicon.largestNumber
  let p := (← get).personality
  let desired ← Seat.lucky
    (Order.dream a.lexicon.taxonomy p a.config.minFillings a.config.maxFillings)
  let order : Order :=
    { desired := desired, maxFailures := a.config.maxFailures, maxCount := max 1 (largest : Int) }
  Seat.atTable (Table.reorder fun _ => order)

/-- Says hello. -/
def start (a : Agent R) : Act (Seat R) Waiting := do
  place a
  a.say .customer 0 (some .finish) none
  return ⟨.greeting, 0, {}⟩

/-- The next thing to ask for; what cannot be said is taken back for an affirmation. -/
def nextRequest (a : Agent R) (turn : Nat) (result : Sandwich) :
    Act (Seat R) (Option Operation) := do
  if (turn : Int) < a.config.maxTurns then
    match ← Seat.atTable (Order.next result) with
    | none => return none
    | some x =>
      if (← Act.ofExcept (Agent.speak a.lexicon (some x))).isEmpty then
        let (x, o) ← Act.ofExcept (← get).table.order.retract
        Seat.atTable (Table.reorder fun _ => o)
        return some x
      else return some x
  else return none

/-- Asks for the next thing, or says goodbye. -/
def ask (a : Agent R) (turn : Nat) (result : Sandwich) : Act (Seat R) Waiting := do
  let request ← nextRequest a turn result
  a.pause
  a.say .customer (turn + 1) (some (request.getD .finish)) none
  return ⟨if request.isSome then .asking else .leaving, turn + 1, result⟩

/-- Judges what it got, remembers it, and is done. -/
def conclude (a : Agent R) (turn : Nat) (result : Sandwich) : Act (Seat R) (Outcome R) := do
  let o := (← get).table.order
  let score : R := Scalar.ofRat (o.score result)
  Seat.minded (Mind.change (·.remember result a.config.historyLimit))
  Seat.save
  Seat.emit (.recorded
    (a.turnRecord .judge turn none none (some result) (some score)))
  return ⟨a.session, o.desired, result, score, turn, o.gaveUp⟩

/-- Takes one answer. -/
def receive (a : Agent R) (w : Waiting) (m : Message) :
    Act (Seat R) (Progress Waiting (Outcome R)) := do
  match w.phase with
  | .greeting => return .await (← ask a w.turn (m.sandwich.getD {}))
  | .asking =>
    let result := m.sandwich.getD w.result
    Seat.emit (.shown (Render.of result (Agent.gloss a.lexicon m.text)))
    match ← Seat.minded (a.understand m.text) with
    | some reading => Seat.atTable (Table.reorder (·.hear reading.operation))
    | none => pure ()
    Seat.save
    return .await (← ask a w.turn result)
  | .leaving =>
    let result := m.sandwich.getD w.result
    Seat.emit (.shown (Render.of result (Agent.gloss a.lexicon m.text)))
    return .finished (← conclude a w.turn result)

end Customer

end DeliTalk
