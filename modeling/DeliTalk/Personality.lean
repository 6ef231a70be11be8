import DeliTalk.Register
import DeliTalk.Sandwich
import DeliTalk.Lexicon.Entry

/-!
# Personalities

A machine's dispositions, what it likes and cannot stand, how well it speaks, what it has in
stock, and what it remembers. The reading of the last utterance, the ingredients refused this
turn and an unlimited stock belong to the moment and are not saved.

* `Skill`, `Language`: the four constructs of the grammar and a number for each, which is a
  probability in a personality and a count in the report of a reading.
* `Personality.stock`, `take`, `refuse`, `restock`: the pantry.
* `Personality.remember`: the sandwiches eaten.
-/

namespace DeliTalk

/-! ## 1. Skills -/

/-- A construct of the grammar that is learned. -/
inductive Skill where
  | adposition | conjunction | numbers | adverbs
deriving Repr, DecidableEq

namespace Skill

/-- Every skill. -/
def all : List Skill := [adposition, conjunction, numbers, adverbs]

/-- The name of a skill. -/
def name : Skill → String
  | adposition => "adposition"
  | conjunction => "conjunction"
  | numbers => "numbers"
  | adverbs => "adverbs"

end Skill

/-- A number for each skill. -/
structure Language (R : Type) where
  adposition : R
  conjunction : R
  numbers : R
  adverbs : R
deriving Inhabited

namespace Language

variable {R : Type} [Scalar R]

/-- The number of a skill. -/
def get (l : Language R) : Skill → R
  | .adposition => l.adposition
  | .conjunction => l.conjunction
  | .numbers => l.numbers
  | .adverbs => l.adverbs

/-- Changes the number of a skill. -/
def set (l : Language R) (skill : Skill) (x : R) : Language R :=
  match skill with
  | .adposition => { l with adposition := x }
  | .conjunction => { l with conjunction := x }
  | .numbers => { l with numbers := x }
  | .adverbs => { l with adverbs := x }

/-- The same number for each skill. -/
def uniform (x : R) : Language R := ⟨x, x, x, x⟩

/-- No skill used. -/
def unused : Language R := uniform (Scalar.ofInt 0)

/-- One skill used once. -/
def once (skill : Skill) : Language R := unused.set skill (Scalar.ofInt 1)

/-- The sums, skill by skill. -/
def add (l m : Language R) : Language R :=
  ⟨l.adposition + m.adposition, l.conjunction + m.conjunction, l.numbers + m.numbers,
    l.adverbs + m.adverbs⟩

instance : Add (Language R) := ⟨add⟩

/-- The skills whose number is above zero. -/
def used (l : Language R) : List Skill :=
  Skill.all.filter fun skill => decide (Scalar.ofInt 0 < l.get skill)

end Language

/-! ## 2. Likes, senses, readings -/

/-- An ingredient and how strongly it is felt about. -/
structure Preference (R : Type) where
  ingredient : Ingredient
  severity : R
deriving Inhabited

/-- A possible sense of a word and its weight. -/
structure Meaning (R : Type) where
  entry : Entry
  weight : R
deriving Inhabited

/-- A word and the sense it was read with, if any. -/
structure LexedWord where
  word : String
  entry : Option Entry
deriving Repr, DecidableEq, Inhabited

/-! ## 3. The machine -/

/-- Dispositions, likes, skills, stock and memory of one machine. -/
structure Personality (R : Type) where
  laziness : R
  forgetfulness : R
  politeness : R
  shyness : R
  spite : R
  planned : R
  spontaneity : R
  orderSensitivity : R
  stress : R
  allergies : List (Preference R)
  favorites : List (Preference R)
  language : Language R
  idleTurns : Register Int
  inventory : Register Int
  history : List Sandwich
  cloud : Register (List (Meaning R))
  lastLex : List LexedWord
  refused : List String
  unlimitedStock : Bool
deriving Inhabited

/-- How much of an ingredient there is. -/
inductive Stock where
  | unlimited
  | units (n : Int)
deriving Repr, DecidableEq

/-- Whether there is any of it. -/
def Stock.isPositive : Stock → Bool
  | unlimited => true
  | units n => 0 < n

namespace Personality

variable {R : Type}

/-- The machine one gets without further wishes. -/
def standard [Scalar R] : Personality R where
  laziness := 0.5
  forgetfulness := 0.1
  politeness := 0.5
  shyness := 0.1
  spite := 0.1
  planned := 0.5
  spontaneity := 0.2
  orderSensitivity := 0.5
  stress := 0.2
  allergies := []
  favorites := []
  language := .uniform 0.1
  idleTurns := []
  inventory := []
  history := []
  cloud := []
  lastLex := []
  refused := []
  unlimitedStock := false

/-- The standard machine with everything in stock. -/
def dreamer [Scalar R] : Personality R := { (standard : Personality R) with unlimitedStock := true }

/-- How many units of an ingredient are in the pantry. -/
def units (p : Personality R) (name : String) : Int := (Register.find? name p.inventory).getD 0

/-- The stock of an ingredient. -/
def stock (p : Personality R) (name : String) : Stock :=
  if p.unlimitedStock then .unlimited else .units (p.units name)

/-- Uses up one unit of an ingredient; says whether there was one. -/
def take (p : Personality R) (name : String) : Bool × Personality R :=
  if p.unlimitedStock then (true, p)
  else if p.units name ≤ 0 then (false, p)
  else (true, { p with inventory := Register.put name (p.units name - 1) p.inventory })

/-- Notes that an ingredient was asked for in vain. -/
def refuse (p : Personality R) (name : String) : Personality R :=
  if name ∈ p.refused then p else { p with refused := p.refused ++ [name] }

/-- Fills the pantry with the same amount of every ingredient named. -/
def restock (p : Personality R) (names : List String) (amount : Int) : Personality R :=
  { p with inventory := Register.ofList (names.map fun name => (name, amount)) }

/-- The part of a list from a place counted from its end; a negative count is from the front, and
zero leaves the whole list. -/
def lastPart {α : Type} (limit : Int) (xs : List α) : List α :=
  if 0 < limit then xs.drop (xs.length - limit.toNat) else xs.drop limit.natAbs

/-- Remembers a sandwich, and at most so many of them. -/
def remember (p : Personality R) (s : Sandwich) (limit : Int) : Personality R :=
  { p with history := lastPart limit (p.history ++ [s]) }

/-- The personality without what belongs to the moment. -/
def settled (p : Personality R) : Personality R :=
  { p with lastLex := [], refused := [], unlimitedStock := false }

end Personality

end DeliTalk
