import DeliTalk.Operation
import DeliTalk.Lexicon

/-!
# Saying an operation

An operation is said from its outermost construct inwards: the number, the adverb, the anchor
and its preposition, then the ingredient and the verb. What has no word cannot be said.
-/

namespace DeliTalk.Operation

/-- The words of "I want it", after the words that place it. -/
def wantWords (lex : Lexicon) (i : Ingredient) (r : Relative) : Except Fault (List Tagged) := do
  let placing ←
    match r.position, r.anchor with
    | .before, some anchor =>
      do pure [← lex.wordForIngredient anchor, ← lex.wordForUsage .before]
    | .after, some anchor => do pure [← lex.wordForIngredient anchor, ← lex.wordForUsage .after]
    | _, _ => pure []
  let noun ← lex.wordForIngredient i
  let verb ← lex.wordForUsage .desire
  return placing ++ [noun, verb]

/-- The words of "not wanted". -/
def removeWords (lex : Lexicon) (i : Ingredient) : Except Fault (List Tagged) := do
  let adverb ← lex.wordForUsage .negation
  return adverb :: (← wantWords lex i .top)

/-- The words of an operation. -/
def encode (lex : Lexicon) : Operation → Except Fault (List Tagged)
  | add i r => wantWords lex i r
  | remove i => removeWords lex i
  | removeAll i => do
    let adverb ← lex.wordForUsage .ever
    return adverb :: (← removeWords lex i)
  | repeated n x => do
    let number ← lex.wordForNumber n
    return number :: (← encode lex x)
  | compound x y => do
    let first ← encode lex x
    let conjunction ← lex.wordForUsage .conjunction
    return first ++ conjunction :: (← encode lex y)
  | ensure i => do
    let noun ← lex.wordForIngredient i
    return [noun, ← lex.wordForUsage .possession]
  | persist x => do
    let adverb ← lex.wordForUsage .ever
    return adverb :: (← encode lex x)
  | affirm => do return [← lex.wordForUsage .affirmation]
  | negate => do return [← lex.wordForUsage .negation]
  | checkFor i => do
    let question ← lex.wordForUsage .question
    let noun ← lex.wordForIngredient i
    return [question, noun, ← lex.wordForUsage .possession]
  | finish => do return [← lex.wordForUsage .greeting]

end DeliTalk.Operation
