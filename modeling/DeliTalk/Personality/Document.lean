import DeliTalk.Personality
import DeliTalk.Sandwich.Document

/-!
# Personalities as documents

Shares lie between zero and one, weights are above zero, counters are integers. What belongs to
the moment may be given in a document but is never written into one.
-/

namespace DeliTalk

variable {R : Type}

namespace Language

/-- Skills as a document. -/
def toDoc (l : Language R) : Doc R :=
  .map [("adposition", .num l.adposition), ("conjunction", .num l.conjunction),
    ("numbers", .num l.numbers), ("adverbs", .num l.adverbs)]

/-- Reads skills. -/
def ofDoc [Scalar R] (d : Doc R) : Check (Language R) :=
  d.asRecord.andThen fun fs =>
    Language.mk <$> Doc.fieldOr fs "adposition" Doc.asScalar 0.0
      <*> Doc.fieldOr fs "conjunction" Doc.asScalar 0.0
      <*> Doc.fieldOr fs "numbers" Doc.asScalar 0.0
      <*> Doc.fieldOr fs "adverbs" Doc.asScalar 0.0

end Language

namespace Preference

/-- A preference as a document. -/
def toDoc (p : Preference R) : Doc R :=
  .map [("ingredient", p.ingredient.toDoc), ("severity", .num p.severity)]

/-- Reads a preference. -/
def ofDoc [Scalar R] (room : Nat) (d : Doc R) : Check (Preference R) :=
  d.asRecord.andThen fun fs =>
    Preference.mk <$> Doc.field fs "ingredient" (Ingredient.ofDoc (room - 1))
      <*> Doc.fieldOr fs "severity" Doc.asShare 0.5

end Preference

namespace Meaning

/-- A weighted sense as a document. -/
def toDoc (m : Meaning R) : Doc R :=
  .map [("entry", m.entry.toDoc), ("weight", .num m.weight)]

/-- Reads a weight, which is above zero. -/
def weightOfDoc [Scalar R] (d : Doc R) : Check R :=
  (Doc.asScalar d).require (fun x => decide ((0.0 : R) < x)) .tooLowStrict

/-- Reads a weighted sense. -/
def ofDoc [Scalar R] (d : Doc R) : Check (Meaning R) :=
  d.asRecord.andThen fun fs =>
    Meaning.mk <$> Doc.field fs "entry" Entry.ofDoc <*> Doc.fieldOr fs "weight" weightOfDoc 1.0

end Meaning

namespace LexedWord

/-- A read word as a document. -/
def toDoc (w : LexedWord) : Doc R :=
  .map [("word", .text w.word), ("entry", Doc.optional Entry.toDoc w.entry)]

/-- Reads a read word. -/
def ofDoc (d : Doc R) : Check LexedWord :=
  d.asRecord.andThen fun fs =>
    LexedWord.mk <$> Doc.field fs "word" Doc.asText
      <*> Doc.fieldOr fs "entry" (Doc.asOptional Entry.ofDoc) none

end LexedWord

namespace Personality

/-- Counters or units as a document. -/
def countsDoc (r : Register Int) : Doc R := .map (r.map fun p => (p.1, .int p.2))

/-- Meaning clouds as a document. -/
def cloudDoc (r : Register (List (Meaning R))) : Doc R :=
  .map (r.map fun p => (p.1, .list (p.2.map Meaning.toDoc)))

/-- A personality as a document, without what belongs to the moment. -/
def toDoc (p : Personality R) : Doc R :=
  .map [("laziness", .num p.laziness), ("forgetfulness", .num p.forgetfulness),
    ("politeness", .num p.politeness), ("shyness", .num p.shyness), ("spite", .num p.spite),
    ("planned", .num p.planned), ("spontaneity", .num p.spontaneity),
    ("order_sensitivity", .num p.orderSensitivity), ("stress", .num p.stress),
    ("allergies", .list (p.allergies.map Preference.toDoc)),
    ("favorites", .list (p.favorites.map Preference.toDoc)),
    ("language", p.language.toDoc), ("idle_turns", countsDoc p.idleTurns),
    ("inventory", countsDoc p.inventory), ("history", .list (p.history.map Sandwich.toDoc)),
    ("meaning_cloud", cloudDoc p.cloud)]

/-- Reads a personality. -/
def ofDoc [Scalar R] (d : Doc R) : Check (Personality R) :=
  d.asRecord.andThen fun fs =>
    let share (name : String) (default : R) : Check R := Doc.fieldOr fs name Doc.asShare default
    let preferences := Doc.asListOf (Preference.ofDoc (Doc.nestingLimit - 1))
    Personality.mk <$> share "laziness" 0.5 <*> share "forgetfulness" 0.1
      <*> share "politeness" 0.5 <*> share "shyness" 0.1 <*> share "spite" 0.1
      <*> share "planned" 0.5 <*> share "spontaneity" 0.2 <*> share "order_sensitivity" 0.5
      <*> share "stress" 0.2
      <*> Doc.fieldOr fs "allergies" preferences []
      <*> Doc.fieldOr fs "favorites" preferences []
      <*> Doc.fieldOr fs "language" Language.ofDoc (.uniform 0.1)
      <*> Doc.fieldOr fs "idle_turns" (Doc.asRegisterOf Doc.asInt) []
      <*> Doc.fieldOr fs "inventory" (Doc.asRegisterOf Doc.asInt) []
      <*> Doc.fieldOr fs "history" (Doc.asListOf (Sandwich.ofDoc Doc.nestingLimit)) []
      <*> Doc.fieldOr fs "meaning_cloud" (Doc.asRegisterOf (Doc.asListOf Meaning.ofDoc)) []
      <*> Doc.fieldOr fs "last_lex" (Doc.asListOf LexedWord.ofDoc) []
      <*> Doc.fieldOr fs "refused" Doc.asSet []
      <*> Doc.fieldOr fs "unlimited_stock" Doc.asFlag false

end Personality

end DeliTalk
