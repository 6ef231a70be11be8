import DeliTalk.Lexicon
import DeliTalk.Taxonomy.House

/-!
# The house dictionary

The words a machine knows unless it is given other ones, on top of the nouns of its menu.
-/

namespace DeliTalk.Lexicon

/-- The words of the house, each with its entry. -/
def houseWords : List (String × Entry) :=
  [("lo", ⟨.greeting, .special, "hello"⟩),
    ("ha", ⟨.affirmation, .special, "yes"⟩),
    ("ne", ⟨.negation, .adverb, "no"⟩),
    ("su", ⟨.ever, .adverb, "always"⟩),
    ("ta", ⟨.desire, .verb, "want"⟩),
    ("hi", ⟨.possession, .verb, "have"⟩),
    ("ki", ⟨.question, .special, "do you"⟩),
    ("ip", ⟨.before, .preposition, "under"⟩),
    ("up", ⟨.after, .preposition, "on"⟩),
    ("en", ⟨.conjunction, .nounConjunction, "and"⟩),
    ("wi", ⟨.number, .adjective, "one"⟩),
    ("no", ⟨.number, .adjective, "two"⟩),
    ("te", ⟨.number, .adjective, "three"⟩),
    ("ko", ⟨.number, .adjective, "four"⟩),
    ("wo", ⟨.number, .adjective, "five"⟩)]

/-- The lexicon of the house. -/
def house : Lexicon := build Taxonomy.house houseWords

end DeliTalk.Lexicon
