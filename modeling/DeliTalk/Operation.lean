import DeliTalk.Learning

/-!
# Operations: every utterance means an edit of the sandwich

A machine that orders turns what it wants into an operation and says it; the other one hears
words, turns them into an operation, and applies it. Operations are put together: an operation
may be repeated, be kept in force, or be followed by another one.

* `Operation.apply`: the edited sandwich, and the personality with its stock used.
* `Operation.reverse`, `question`, `respond`: the opposite, asking for it, and the answer to it.
* `Operation.skills`: the constructs of the grammar it takes to say it.
-/

namespace DeliTalk

/-- The edits of a sandwich. -/
inductive Operation where
  | add (ingredient : Ingredient) (relative : Relative)
  | remove (ingredient : Ingredient)
  | removeAll (ingredient : Ingredient)
  | repeated (count : Nat) (operation : Operation)
  | compound (first second : Operation)
  | ensure (ingredient : Ingredient)
  | persist (operation : Operation)
  | affirm
  | negate
  | checkFor (ingredient : Ingredient)
  | finish
deriving Inhabited

namespace Operation

/-- The name of a kind of operation. -/
def kind : Operation → String
  | add _ _ => "add"
  | remove _ => "remove"
  | removeAll _ => "remove_all"
  | repeated _ _ => "repeat"
  | compound _ _ => "compound"
  | ensure _ => "ensure"
  | persist _ => "persist"
  | affirm => "affirm"
  | negate => "negate"
  | checkFor _ => "check_for"
  | finish => "finish"

/-! ## 1. Equality up to names -/

/-- Whether two placements agree, ingredients by name. -/
def sameRelative (r s : Relative) : Bool :=
  r.position == s.position && r.anchor.map (·.name) == s.anchor.map (·.name)

/-- Whether two operations agree, ingredients by name. -/
def same : Operation → Operation → Bool
  | add i r, add j s => i.same j && sameRelative r s
  | remove i, remove j => i.same j
  | removeAll i, removeAll j => i.same j
  | repeated m x, repeated n y => m == n && same x y
  | compound x y, compound v w => same x v && same y w
  | ensure i, ensure j => i.same j
  | persist x, persist y => same x y
  | affirm, affirm => true
  | negate, negate => true
  | checkFor i, checkFor j => i.same j
  | finish, finish => true
  | _, _ => false

/-! ## 2. Editing -/

/-- Where an ingredient placed so goes; none if its anchor is not there. -/
def insertionPoint (r : Relative) (ingredients : List Ingredient) : Option Nat :=
  match r.position with
  | .top => some ingredients.length
  | .before => anchored
  | .after => anchored.map (· + 1)
where
  /-- The place of the first ingredient with the anchor's name. -/
  anchored : Option Nat :=
    r.anchor.bind fun a => ingredients.findIdx? (·.same a)

/-- Adds an ingredient if its place exists and it is in stock. -/
def applyAdd {R : Type} (i : Ingredient) (r : Relative) (s : Sandwich) (p : Personality R) :
    Sandwich × Personality R :=
  match insertionPoint r s.ingredients with
  | none => (s, p)
  | some place =>
    match p.take i.name with
    | (true, p) => ({ s with ingredients := s.ingredients.insertIdx place i.leaf }, p)
    | (false, p) => (s, p.refuse i.name)

/-- A sandwich without the first ingredient of a name. -/
def withoutFirst (i : Ingredient) (s : Sandwich) : Sandwich :=
  { s with ingredients := s.ingredients.eraseP (·.same i) }

/-- A sandwich without any ingredient of a name. -/
def withoutAny (i : Ingredient) (s : Sandwich) : Sandwich :=
  { s with ingredients := s.ingredients.filter fun x => !x.same i }

/-- A sandwich with one more ingredient confirmed, unless it is already. -/
def withEnsured (i : Ingredient) (s : Sandwich) : Sandwich :=
  if s.ensures i then s else { s with ensured := s.ensured ++ [i.leaf] }

/-- Applies an operation to a sandwich; stock is used and senses are confirmed on the way. -/
def apply {R : Type} [Scalar R] :
    Operation → Sandwich × Personality R → Sandwich × Personality R
  | add i r, (s, p) => applyAdd i r s p
  | remove i, (s, p) => (withoutFirst i s, p)
  | removeAll i, (s, p) => (withoutAny i s, p)
  | repeated n x, sp => n.repeat (apply x) sp
  | compound x y, sp => apply y (apply x sp)
  | ensure i, (s, p) => (withEnsured i s, p)
  | persist x, sp => apply x sp
  | affirm, (s, p) => (s, (p.reinforce Personality.confirmationRate p.lastLex).1)
  | negate, sp => sp
  | checkFor _, sp => sp
  | finish, (s, p) => ({ s with complete := true }, p)

/-- What an operation would do if everything were in stock. -/
def imagine (R : Type) [Scalar R] (x : Operation) (s : Sandwich) : Sandwich :=
  (apply x (s, (Personality.dreamer : Personality R))).1

/-! ## 3. The opposite, the question, the answer -/

/-- The opposite of an operation. -/
def reverse : Operation → Operation
  | add i _ => remove i
  | remove i => add i .top
  | removeAll i => ensure i
  | repeated n x => repeated n (reverse x)
  | compound x y => compound (reverse y) (reverse x)
  | ensure i => removeAll i
  | persist x => persist (reverse x)
  | affirm => negate
  | negate => affirm
  | checkFor i => checkFor i
  | finish => finish

/-- Asking for what an operation would do. -/
def question : Operation → Operation
  | add i _ => checkFor i
  | remove i => checkFor i
  | removeAll i => checkFor i
  | repeated _ x => question x
  | compound x y => compound (question x) (question y)
  | ensure i => checkFor i
  | persist x => question x
  | affirm => affirm
  | negate => negate
  | checkFor i => checkFor i
  | finish => finish

/-- The answer to an operation that was just applied, if it calls for one. -/
def respond {R : Type} (p : Personality R) : Operation → Option Operation
  | add i _ => if i.name ∈ p.refused then some (remove i) else none
  | repeated _ x => respond p x
  | compound x y =>
    match respond p x with
    | some answer => some answer
    | none => respond p y
  | persist x => respond p x
  | checkFor i => some (if (p.stock i.name).isPositive then ensure i else negate)
  | _ => none

/-! ## 4. What an operation is like -/

/-- The constructs of the grammar it takes to say an operation. -/
def skills {R : Type} [Scalar R] : Operation → Language R
  | add _ r => if r.position = .top then .unused else .once .adposition
  | remove _ => .once .adverbs
  | removeAll _ => Language.unused.set .adverbs (Scalar.ofInt 2)
  | repeated _ x => Language.once .numbers + skills x
  | compound x y => Language.once .conjunction + skills x + skills y
  | persist x => Language.once .adverbs + skills x
  | _ => .unused

/-- Whether an operation stays in force. -/
def isPersistent : Operation → Bool
  | repeated _ x => isPersistent x
  | compound x y => isPersistent x || isPersistent y
  | persist _ => true
  | _ => false

/-- Whether an operation of this kind is meant to edit ingredients. -/
def changesSandwich : Operation → Bool
  | add _ _ | remove _ | removeAll _ => true
  | repeated _ x => changesSandwich x
  | compound x y => changesSandwich x || changesSandwich y
  | persist x => changesSandwich x
  | ensure _ | affirm | negate | checkFor _ | finish => false

end Operation

end DeliTalk
