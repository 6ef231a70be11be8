import DeliTalk.Operation

/-!
# Orders: one side's state of one negotiation

The customer holds a desired sandwich and what was asked for so far, the server holds the
operations that stay in force. Whether an operation worked is judged by imagining its effect on
the last sandwich seen and comparing that with what came back.

* `Order`, `Table`: the state of an order, and the order together with its machine.
* `Order.lastSucceeded`, `Order.questionFailed`: the two verdicts on the last operation.
* `Order.hear`: what the server's answers do to the wish.
-/

namespace DeliTalk

/-- The state of one negotiation. The history starts with the last operation. -/
structure Order where
  desired : Sandwich := {}
  maxFailures : Int := 6
  maxCount : Int := 5
  history : List Operation := []
  lastResult : Option Sandwich := none
  standing : List Operation := []
  failures : Nat := 0
  pending : Option Ingredient := none
deriving Inhabited

/-- An order and the machine that placed or serves it. -/
structure Table (R : Type) where
  order : Order
  mind : Mind R

namespace Table

variable {R α : Type}

/-- An act on the source of chance. -/
def lucky (x : Luck R α) : Act (Table R) α :=
  Act.on (·.mind) (fun m t => { t with mind := m }) (Mind.lucky x)

/-- An act of the machine. -/
def minded (x : Act (Mind R) α) : Act (Table R) α :=
  Act.on (·.mind) (fun m t => { t with mind := m }) x

/-- Changes the order. -/
def reorder (f : Order → Order) : Act (Table R) Unit :=
  modify fun t => { t with order := f t.order }

/-- Changes the personality. -/
def change (f : Personality R → Personality R) : Act (Table R) Unit :=
  minded (Mind.change f)

end Table

namespace Order

variable {R : Type} [Scalar R]

/-- Whether the customer has had enough. -/
def gaveUp (o : Order) : Bool := o.maxFailures ≤ (o.failures : Int)

/-- Remembers what was asked for and what the sandwich looked like then. -/
def archive (o : Order) (x : Operation) (result : Sandwich) : Order :=
  { o with history := x :: o.history, lastResult := some result }

/-- Takes back the last operation; an affirmation stands in for it. -/
def retract (o : Order) : Except Fault (Operation × Order) :=
  match o.history with
  | [] => .error .nothingToRetract
  | _ :: rest => .ok (.affirm, { o with history := .affirm :: rest })

/-! ## 1. Verdicts -/

/-- Whether the sandwich changed, and exactly the way the last operation meant. -/
def lastSucceeded (R : Type) [Scalar R] (o : Order) (result : Sandwich) : Bool :=
  match o.history, o.lastResult with
  | last :: _, some before =>
    let expected := (last.imagine R before).names
    result.names != before.names && result.names == expected
  | _, _ => false

/-- Whether something that should not change the sandwich changed it anyway. -/
def questionFailed (R : Type) [Scalar R] (o : Order) (result : Sandwich) : Bool :=
  match o.history, o.lastResult with
  | [], _ => false
  | _, none => false
  | .affirm :: _, _ => false
  | .finish :: _, _ => false
  | last :: _, some before =>
    (last.imagine R before).names == before.names && result.names != before.names

/-! ## 2. What the server says back -/

/-- Stops wanting an ingredient. -/
def forgo (o : Order) (i : Ingredient) : Order :=
  { o with desired := Operation.withoutAny i o.desired, pending := none }

/-- Reacts to what the server said back. -/
def hear (o : Order) : Operation → Order
  | .persist x => hear o x
  | .repeated _ x => hear o x
  | .compound x y => hear (hear o x) y
  | .remove i => o.forgo i
  | .removeAll i => o.forgo i
  | .ensure i => { o with desired := Operation.withEnsured i o.desired, pending := none }
  | .negate =>
    match o.pending with
    | some i => o.forgo i
    | none => o
  | _ => o

end Order

end DeliTalk
