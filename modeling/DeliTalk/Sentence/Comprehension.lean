import DeliTalk.Sentence.Outline
import DeliTalk.Operation

/-!
# Comprehension: what a listener makes of a sentence

Conjunctions, numbers, adverbs and prepositions are each understood only with the probability of
the listener's skill. A construct that is missed is dropped; where a conjunction is missed, only
what follows it sticks. So the same sentence can mean different things on different hearings.

Rolls come from the inside out: in a clause the preposition first, then the adverbs from the
innermost, then the number; the conjunctions last, from right to left.

* `Clause.understand`, `Clause.understandChain`: an operation and the skills it took.
* `Sentence.understand`: a whole sentence; none where the words do not add up to one.
-/

namespace DeliTalk

variable {R : Type} [Scalar R]

/-- An operation and how often each skill was used to understand it. -/
abbrev Understood (R : Type) := Operation × Language R

/-- The ingredient a noun refers to: by its gloss, or else by its morphemes. -/
def Taxonomy.referent (t : Taxonomy) (noun : Tagged) : Except Fault Ingredient :=
  match noun.entry with
  | none => byMorphemes
  | some entry =>
    if entry.usage = .ingredient then
      match t.find? entry.gloss with
      | some i => .ok i
      | none => byMorphemes
    else .error (.missing (.notIngredient noun.text))
where
  /-- The ingredient the syllables lead to, which is not the root. -/
  byMorphemes : Except Fault Ingredient :=
    let found := t.ingredientFor noun.word
    if found.same t.root then .error (.missing (.unknownIngredient noun.text)) else .ok found

/-- Where an ingredient on a given side of an anchor goes. -/
def Side.relative (side : Side) (anchor : Ingredient) : Relative :=
  match side with
  | .before => .before anchor
  | .after => .after anchor

/-- What an adverb does to an operation. -/
def Adverb.modify (a : Adverb) (x : Operation) : Operation :=
  match a with
  | .ever => .persist x
  | .negation => x.reverse

namespace Clause

/-- The operation of a noun and a verb alone. -/
def core (t : Taxonomy) (c : Clause) : Except Fault Operation :=
  match t.referent c.noun with
  | .error e => .error e
  | .ok i =>
    match c.verb.usage? with
    | some .desire => .ok (.add i .top)
    | some .possession => .ok (.ensure i)
    | usage => .error (.unsupportedVerb c.verb.text usage)

/-- With the placement, which only something to be added can have. -/
def understandPlaced (t : Taxonomy) (skills : Language R) (c : Clause) :
    Luck R (Understood R) := do
  let x ← Act.ofExcept (c.core t)
  match c.placement, x with
  | some (anchor, side), .add i _ =>
    if ← roll skills.adposition then
      let a ← Act.ofExcept (t.referent anchor)
      return (.add i (side.relative a), .unused + .once .adposition)
    else return (x, .unused)
  | _, _ => return (x, .unused)

/-- With adverbs around an act of understanding, the innermost one first. -/
def understandAdverbs (skills : Language R) (inner : Luck R (Understood R)) :
    List Adverb → Luck R (Understood R)
  | [] => inner
  | a :: rest => do
    let (x, used) ← understandAdverbs skills inner rest
    if ← roll skills.adverbs then return (a.modify x, used + .once .adverbs)
    else return (x, used)

/-- A whole clause. -/
def understand (t : Taxonomy) (skills : Language R) (c : Clause) : Luck R (Understood R) := do
  let (x, used) ← understandAdverbs skills (c.understandPlaced t skills) c.adverbs
  match c.count with
  | none => return (x, used)
  | some n =>
    if ← roll skills.numbers then return (.repeated n x, used + .once .numbers)
    else return (x, used)

/-- A chain of clauses, all of them heard before the first conjunction is judged. -/
def understandChain (t : Taxonomy) (skills : Language R) (ending : Ending) :
    Clause → List Clause → Luck R (Understood R)
  | c, [] => do
    let understood ← c.understand t skills
    match ending with
    | .rest _ => return understood
    | .unreadable cause => Act.fault (.unreadableNumber cause)
  | c, d :: more => do
    let (x, used) ← c.understand t skills
    let (y, usedLater) ← understandChain t skills ending d more
    if ← roll skills.conjunction then
      return (.compound x y, used + usedLater + .once .conjunction)
    else return (y, usedLater)

end Clause

namespace Sentence

/-- Sentences of one word that stand for themselves. -/
def single? (t : Tagged) : Option Operation :=
  match t.usage? with
  | some .greeting => some .finish
  | some .affirmation => some .affirm
  | some .negation => some .negate
  | _ => none

/-- The operation of a chain of clauses that takes in every word. -/
def understandAll (t : Taxonomy) (skills : Language R) (ts : List Tagged) :
    Luck R (Option (Understood R)) :=
  match Outline.read ts with
  | .none => return none
  | .unreadable cause => Act.fault (.unreadableNumber cause)
  | .outline o => do
    let understood ← Clause.understandChain t skills o.ending o.first o.more
    return if o.isWhole then some understood else none

/-- The operation a sentence asks for, if its words add up to a sentence. -/
def understand (t : Taxonomy) (skills : Language R) (ts : List Tagged) :
    Luck R (Option (Understood R)) :=
  match ts with
  | [] => return none
  | head :: rest =>
    match rest, single? head with
    | [], some x => return some (x, .unused)
    | _, _ =>
      if head.is .question then do
        let understood ← understandAll t skills rest
        return understood.map fun u => (u.1.question, u.2)
      else understandAll t skills ts

end Sentence

end DeliTalk
