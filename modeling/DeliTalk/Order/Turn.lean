import DeliTalk.Order.Wish
import DeliTalk.Order.Likeness

/-!
# A turn of each side

* `Order.next`: one customer turn. The customer learns from how the last operation went, then
  picks and archives the next one, or has enough.
* `Order.serve`: one server turn. The operations in force are applied again, then what was heard,
  sometimes spitefully backwards; a new instruction cancels the ones it contradicts.
* `Order.score`: how close a result came to what was wanted.
-/

namespace DeliTalk

namespace Order

variable {R : Type} [Scalar R]

/-! ## 1. The customer -/

/-- A share kept between zero and one. -/
def clamped (x : R) : R := Scalar.least 1.0 (Scalar.greatest 0.0 x)

/-- A customer after a success is a little less stressed. -/
def relieved (p : Personality R) : Personality R := { p with stress := clamped (p.stress - 0.05) }

/-- A customer after a failure is more stressed. -/
def annoyed (p : Personality R) : Personality R := { p with stress := clamped (p.stress + 0.1) }

/-- Archives an operation and says it. -/
def ask (x : Operation) (result : Sandwich) : Act (Table R) (Option Operation) := do
  Table.reorder (·.archive x result)
  return some x

/-- What a customer learns from a result: the skills that worked, and whether to say thanks. -/
def learn (last : Operation) (result : Sandwich) : Act (Table R) (List Skill × Bool) := do
  if (← get).order.lastSucceeded R result then
    let skills : Language R := last.skills
    Table.change fun p => relieved (p.upgrade skills)
    Table.reorder fun o => { o with failures := 0 }
    let polite ← Table.lucky (roll (← get).mind.personality.politeness)
    return (skills.used, polite)
  else if last.changesSandwich then
    Table.reorder fun o => { o with failures := o.failures + 1 }
    Table.change annoyed
    return ([], false)
  else return ([], false)

/-- Fades what was not used, then gives up, says thanks, or asks for the next thing. -/
def proceed (result : Sandwich) (used : List Skill) (polite : Bool) :
    Act (Table R) (Option Operation) := do
  Table.minded (Mind.fade used)
  if (← get).order.gaveUp then return none
  else if polite then ask .affirm result
  else
    match ← pick result with
    | some x => ask x result
    | none => return none

/-- One turn of the customer in view of a result; none when it is finished or has given up. -/
def next (result : Sandwich) : Act (Table R) (Option Operation) := do
  let o := (← get).order
  match o.history, o.lastResult with
  | last :: _, some _ =>
    if o.questionFailed R result then ask .affirm result
    else
      let (used, polite) ← learn last result
      proceed result used polite
  | _, _ => proceed result [] false

/-- How close a result came to what was wanted. -/
def score (o : Order) (result : Sandwich) : Rat :=
  Likeness.likeness o.desired.names result.names

/-! ## 2. The server -/

/-- What an operation keeps in force, or the operation itself. -/
def unwrapped : Operation → Operation
  | .persist x => x
  | x => x

/-- Cancels the operations in force that a new instruction contradicts. -/
def countermand (o : Order) (x : Operation) : Order :=
  { o with standing := o.standing.filter fun y => !(unwrapped y).reverse.same (unwrapped x) }

/-- Keeps an operation in force if it is meant to be. -/
def keep (o : Order) (x : Operation) : Order :=
  if x.isPersistent then { o with standing := o.standing ++ [x] } else o

/-- Applies the operations in force, the oldest first. -/
def reapply (standing : List Operation) (sp : Sandwich × Personality R) :
    Sandwich × Personality R :=
  standing.foldl (fun sp x => x.apply sp) sp

/-- Applies an operation to a sandwich at a table. -/
def edit (f : Sandwich × Personality R → Sandwich × Personality R) (s : Sandwich) :
    Act (Table R) Sandwich :=
  Act.always fun t =>
    let (s, p) := f (s, t.mind.personality)
    (s, { t with mind := { t.mind with personality := p } })

/-- What a spiteful server makes of an instruction: now and then the opposite, once. -/
def spited (x : Operation) : Act (Table R) Operation := do
  let p := (← get).mind.personality
  if ← Table.lucky (roll (p.spite * p.stress)) then
    Table.change fun p => { p with spite := 0.0 }
    return x.reverse
  else return x

/-- Applies what was heard; the new sandwich, and the answer if there is one. -/
def serve (heard : Operation) (skills : Language R) (lex : List LexedWord) (s : Sandwich) :
    Act (Table R) (Sandwich × Option Operation) := do
  Table.change fun p => { p with refused := [] }
  let s ← edit (reapply (← get).order.standing) s
  let x ← spited heard
  let s ← edit x.apply s
  Table.change (·.upgrade skills)
  Table.minded (Mind.fade skills.used)
  Table.change fun p => { p with lastLex := lex }
  Table.reorder fun o => ((o.countermand x).keep x).archive x s
  return (s, x.respond (← get).mind.personality)

end Order

end DeliTalk
