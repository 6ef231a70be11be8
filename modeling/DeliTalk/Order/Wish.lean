import DeliTalk.Order

/-!
# What a customer asks for next

Each turn the customer looks at the sandwich it got back and goes through a cascade.

1. Nothing is missing: there is nothing to ask for.
2. The next wish is one past the last wish that is there; allergens the customer is avoiding at
   the moment are passed over.
3. The forgetful sometimes skip one ahead.
4. Something on the sandwich was never asked for: have it taken off.
5. Something earlier never made it: ask for it, in its place if the customer can say that.
6. An allergen is on the sandwich: have it taken off.
7. Under stress an impulse for a favorite may change the order.
8. Otherwise ask for the next wish, or whether they have it, or for several at once.
-/

namespace DeliTalk

/-- One wish of a customer: what it is, whether it is there, whether it is passed over. -/
structure Wish where
  ingredient : Ingredient
  present : Bool
  suppressed : Bool

namespace Wish

/-- Whether a wish is neither there nor passed over. -/
def isOpen (w : Wish) : Bool := !w.present && !w.suppressed

/-- Whether a wish is there and not passed over. -/
def isServed (w : Wish) : Bool := w.present && !w.suppressed

/-- For each name in turn, whether the names available still hold it; each counts once. -/
def presence : List String → List String → List Bool
  | [], _ => []
  | name :: rest, available =>
    if name ∈ available then true :: presence rest (available.erase name)
    else false :: presence rest available

/-- The wishes of an order in view of a sandwich. -/
def listOf (suppressed : Ingredient → Bool) (desired result : Sandwich) : List Wish :=
  desired.ingredients.zipWith (fun i present => ⟨i, present, suppressed i⟩)
    (presence desired.names result.names)

/-- The place after the last wish that is served. -/
def afterServed (ws : List Wish) : Nat :=
  ws.length - (ws.reverse.takeWhile fun w => !w.isServed).length

/-- The first place, from a given one on, that is not passed over. -/
def passOver (ws : List Wish) (i : Nat) : Nat :=
  i + ((ws.drop i).takeWhile (·.suppressed)).length

/-- The wish to turn to next. -/
def target (ws : List Wish) : Nat := passOver ws (afterServed ws)

end Wish

namespace Order

variable {R : Type} [Scalar R]

/-- Whether something desired is missing on the result. -/
def isMissing (desired result : Sandwich) : Bool :=
  desired.names.any fun name => result.count name < desired.count name

/-- The first ingredient of the result there is more of than desired. -/
def firstExtra? (desired result : Sandwich) : Option Ingredient :=
  result.ingredients.find? fun i => desired.count i.name < result.count i.name

/-- Next to the nearest wish that is there, the ones before first. -/
def placement (ws : List Wish) (i : Nat) : Relative :=
  match (ws.take i).reverse.find? (·.present), (ws.drop (i + 1)).find? (·.present) with
  | some w, _ => .after w.ingredient
  | none, some w => .before w.ingredient
  | none, none => .top

/-! ## 1. Rolls of a customer -/

/-- Whether the customer is too shy to speak up just now. -/
def rollShy (p : Personality R) : Luck R Bool := roll (p.shyness * (1.0 - p.stress))

/-- The allergies the customer takes seriously this turn. -/
def rollAvoided : List (Preference R) → Luck R (List (Preference R))
  | [] => return []
  | a :: rest => do
    let avoided ← roll a.severity
    let more ← rollAvoided rest
    return if avoided then a :: more else more

/-- Whether one of several preferences covers an ingredient. -/
def anyIncludes (ps : List (Preference R)) (i : Ingredient) : Bool :=
  ps.any (·.ingredient.includes i)

/-! ## 2. The steps of the cascade -/

/-- Having something taken off that was never asked for. -/
def askRemoval (p : Personality R) (desired result : Sandwich) : Luck R (Option Operation) := do
  match firstExtra? desired result with
  | none => return none
  | some extra =>
    if ← rollShy p then return none
    else if ← roll p.language.adverbs then return some (.persist (.remove extra))
    else return some (.remove extra)

/-- Asking for something earlier that never made it. -/
def askEarlier (p : Personality R) (ws : List Wish) (next : Nat) :
    Luck R (Option Operation) := do
  match (ws.take next).findIdx? (·.isOpen) with
  | none => return none
  | some i =>
    match ws[i]? with
    | none => return none
    | some w =>
      if ← rollShy p then return none
      else if ← roll p.language.adposition then return some (.add w.ingredient (placement ws i))
      else if ← roll p.orderSensitivity then return none
      else return some (.add w.ingredient .top)

/-- Having an allergen taken off. -/
def askSafety (p : Personality R) (result : Sandwich) :
    List (Preference R) → Luck R (Option Operation)
  | [] => return none
  | a :: rest => do
    match result.ingredients.find? a.ingredient.includes with
    | none => askSafety p result rest
    | some allergen =>
      if ← roll a.severity then
        if ← rollShy p then askSafety p result rest
        else if ← roll p.language.adverbs then return some (.remove allergen)
        else askSafety p result rest
      else askSafety p result rest

/-- What every favorite weighs at least when one is craved. -/
def cravingFloor : R := 0.000001

/-- A craving puts a favorite somewhere into the order; gives the order's ingredients and the place
of the next wish. -/
def crave (favorites : List (Preference R)) (desired : Sandwich) (next : Nat) :
    Luck R (Sandwich × Nat) := do
  let favorite ← pickWeighted (fun f => f.severity + cravingFloor) favorites
  if !favorite.ingredient.isLeaf then return (desired, next)
  else
    let size := desired.ingredients.length
    let spot : Int ← if 1 < size then do pure (1 + (← drawBelow (size - 1))) else pure size
    let ingredients := desired.ingredients.insertIdx (min (indexIn size spot) size)
      favorite.ingredient.leaf
    return ({ desired with ingredients := ingredients }, if spot ≤ next then next + 1 else next)

/-- An impulse under stress: a favorite that no wish covers may be craved. -/
def impulse (p : Personality R) (desired : Sandwich) (next : Nat) : Luck R (Sandwich × Nat) := do
  if p.favorites.isEmpty then return (desired, next)
  else if ← roll (p.spontaneity * p.stress) then
    if desired.ingredients.any (anyIncludes p.favorites) then return (desired, next)
    else crave p.favorites desired next
  else return (desired, next)

/-- The wish to ask for: the next one, or else the first one that is open. -/
def wanted? (ws : List Wish) (next : Nat) : Option Nat :=
  match ws[next]? with
  | some w => if w.present then ws.findIdx? (·.isOpen) else some next
  | none => ws.findIdx? (·.isOpen)

/-- How many wishes from a place on are the same and not there. -/
def runLength (ws : List Wish) (i : Nat) (wanted : Ingredient) : Nat :=
  1 + ((ws.drop (i + 1)).takeWhile fun w => w.ingredient.same wanted && !w.present).length

/-- Whether the last thing said was the question for an ingredient. -/
def justAsked (o : Order) (i : Ingredient) : Bool :=
  match o.history with
  | last :: _ => last.same (.checkFor i)
  | [] => false

/-- Asking for several at once, as many as there are words for. -/
def severalAtOnce (o : Order) (run : Nat) (x : Operation) : Except Fault Operation :=
  let count := min (run : Int) o.maxCount
  if count < 1 then .error (.flawed [⟨[.field "count"], .tooLow⟩])
  else .ok (.repeated count.toNat x)

/-- Asking for a wish, or whether they have it, or for several at once. -/
def askNext (p : Personality R) (o : Order) (result : Sandwich) (ws : List Wish) (next : Nat) :
    Luck R (Option Operation) := do
  match wanted? ws next with
  | none => return none
  | some i =>
    match ws[i]? with
    | none => return none
    | some w =>
      let wanted := w.ingredient
      let settled := o.desired.ensures wanted || result.ensures wanted || o.justAsked wanted
      let ask ← if settled then pure false else rollShy p
      if ask then return some (.checkFor wanted)
      else
        let run := runLength ws i wanted
        let several ← if 1 < run then roll p.language.numbers else pure false
        if several then return some (← Act.ofExcept (o.severalAtOnce run (.add wanted .top)))
        else return some (.add wanted .top)

/-! ## 3. The cascade -/

/-- The first of two acts that comes to something. -/
def firstOf {σ α : Type} (x y : Act σ (Option α)) : Act σ (Option α) := do
  match ← x with
  | some a => return some a
  | none => y

/-- The last steps: an impulse, and the next wish. -/
def askOnward (p : Personality R) (avoided : List (Preference R)) (result : Sandwich)
    (next : Nat) : Act (Table R) (Option Operation) := do
  let o := (← get).order
  let (desired, next) ← Table.lucky (impulse p o.desired next)
  let o := { o with desired := desired }
  Table.reorder fun _ => o
  let ws := Wish.listOf (anyIncludes avoided) desired result
  match ← Table.lucky (askNext p o result ws next) with
  | some (.checkFor i) =>
    Table.reorder fun o => { o with pending := some i }
    return some (.checkFor i)
  | answer => return answer

/-- The next operation to ask for; none when nothing is missing. -/
def pick (result : Sandwich) : Act (Table R) (Option Operation) := do
  let t ← get
  let desired := t.order.desired
  let p := t.mind.personality
  if !isMissing desired result then return none
  else
    let avoided ← Table.lucky (rollAvoided p.allergies)
    let ws := Wish.listOf (anyIncludes avoided) desired result
    let next := Wish.target ws
    let forgot ← Table.lucky (roll p.forgetfulness)
    let next := if forgot ∧ next + 1 < ws.length then next + 1 else next
    firstOf (Table.lucky (askRemoval p desired result))
      (firstOf (Table.lucky (askEarlier p ws next))
        (firstOf (Table.lucky (askSafety p result p.allergies))
          (askOnward p avoided result next)))

end Order

end DeliTalk
