import DeliTalk.Lexicon.House
import DeliTalk.Lexicon.Load
import DeliTalk.Taxonomy.Load

/-!
# The lexicon of a machine

A menu and a dictionary, each from a file of its own or else from the house.
-/

namespace DeliTalk.Lexicon

/-- The taxonomy of a menu file, or the one of the house. -/
def menuOf {R : Type} : Option (Source R) → Except Fault Taxonomy
  | none => .ok Taxonomy.house
  | some source => (Taxonomy.load source).mapError .menu

/-- The lexicon of a taxonomy and a dictionary file, or the words of the house. -/
def ofDictionary {R : Type} [Scalar R] (taxonomy : Taxonomy) :
    Option (Source R) → Except Fault Lexicon
  | none => .ok (build taxonomy houseWords)
  | some source => load taxonomy source

/-- The lexicon of a menu and a dictionary, where the house stands in for each that is not
given. -/
def assemble {R : Type} [Scalar R] (menu dictionary : Option (Source R)) :
    Except Fault Lexicon := do
  ofDictionary (← menuOf menu) dictionary

end DeliTalk.Lexicon
