import DeliTalk.Document.Reading

/-!
# Dictionary entries

What a word is used for, which part of speech it is, and its gloss. A number word's gloss says
its value, in letters or in digits.
-/

namespace DeliTalk

/-- What a word is used for. -/
inductive Usage where
  | greeting | affirmation | negation | desire | possession | before | after | conjunction
  | ever | number | question | ingredient
deriving Repr, DecidableEq, Inhabited

namespace Usage

/-- Every usage. -/
def all : List Usage :=
  [greeting, affirmation, negation, desire, possession, before, after, conjunction, ever,
    number, question, ingredient]

/-- The name a usage is written by. -/
def name : Usage → String
  | greeting => "Greeting"
  | affirmation => "Affirmation"
  | negation => "Negation"
  | desire => "Desire"
  | possession => "Have"
  | before => "Before"
  | after => "After"
  | conjunction => "And"
  | ever => "Ever"
  | number => "Number"
  | question => "Question"
  | ingredient => "Ingredient"

/-- The usage of a name. -/
def ofName? (s : String) : Option Usage := all.find? (·.name == s)

/-- The label of a usage in messages. -/
def label (u : Usage) : String :=
  "WordFunction." ++ String.ofList (u.name.toList.map Char.toUpper)

theorem ofName?_name (u : Usage) : ofName? u.name = some u := by cases u <;> rfl

end Usage

/-- The part of speech of a word. -/
inductive Part where
  | special | verb | noun | preposition | adverb | adjective | nounConjunction
deriving Repr, DecidableEq, Inhabited

namespace Part

/-- Every part of speech. -/
def all : List Part := [special, verb, noun, preposition, adverb, adjective, nounConjunction]

/-- The name a part of speech is written by. -/
def name : Part → String
  | special => "Special"
  | verb => "Verb"
  | noun => "Noun"
  | preposition => "Preposition"
  | adverb => "Adverb"
  | adjective => "Adjective"
  | nounConjunction => "NounConjunction"

/-- The part of speech of a name. -/
def ofName? (s : String) : Option Part := all.find? (·.name == s)

theorem ofName?_name (p : Part) : ofName? p.name = some p := by cases p <;> rfl

end Part

/-- One sense of a word. -/
structure Entry where
  usage : Usage
  part : Part
  gloss : String
deriving Repr, DecidableEq, Inhabited

namespace Entry

/-- The entry of an ingredient's word. -/
def ofIngredient (name : String) : Entry := ⟨.ingredient, .noun, name⟩

/-- The numbers that have names. -/
def numberNames : List (String × Nat) :=
  [("one", 1), ("two", 2), ("three", 3), ("four", 4), ("five", 5), ("six", 6), ("seven", 7),
    ("eight", 8), ("nine", 9), ("ten", 10)]

/-- A gloss without blanks around it and in small letters. -/
def plainGloss (e : Entry) : List Char := (Text.trim e.gloss.toList).map Char.toLower

/-- The value of a number word; none if the gloss names no number. A gloss of digits only may
still not be read as a number. -/
def number? (e : Entry) : Except Numeral.Unread (Option Nat) :=
  let gloss := e.plainGloss
  if gloss ≠ [] ∧ gloss.all Text.isDigitLike = true then
    (Numeral.wholeNumber (String.ofList gloss)).map fun n => some n.toNat
  else .ok (Register.find? (String.ofList gloss) numberNames)

variable {R : Type}

/-- An entry as a document. -/
def toDoc (e : Entry) : Doc R :=
  .map [("function", .text e.usage.name), ("role", .text e.part.name),
    ("definition", .text e.gloss)]

/-- Reads an entry. -/
def ofDoc (d : Doc R) : Check Entry :=
  d.asRecord.andThen fun fs =>
    Entry.mk <$> Doc.field fs "function" (Doc.asOneOf Usage.ofName?)
      <*> Doc.field fs "role" (Doc.asOneOf Part.ofName?)
      <*> Doc.field fs "definition" Doc.asText

theorem ofDoc_toDoc (e : Entry) : ofDoc (toDoc e : Doc R) = .sound e := by
  simp [ofDoc, toDoc, Doc.asRecord, Doc.field, Register.find?, Doc.asOneOf,
    Usage.ofName?_name, Part.ofName?_name, Doc.asText]

end Entry

end DeliTalk
