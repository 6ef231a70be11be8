import DeliTalk.Lexicon
import DeliTalk.Document.Source

/-!
# Loading a lexicon

A dictionary file is a map from words to entries. The first word whose entry cannot be read
makes the whole file unusable.
-/

namespace DeliTalk.Lexicon

variable {R : Type}

/-- Reads the entries of a dictionary, stopping at the first that cannot be read. -/
def wordsOfFields : List (String × Doc R) → Except Fault (List (String × Entry))
  | [] => .ok []
  | (word, d) :: rest =>
    match Entry.ofDoc d with
    | .sound entry => (wordsOfFields rest).map ((word, entry) :: ·)
    | .flawed problems => .error (.menu (.flawed problems))

/-- Reads a dictionary. -/
def wordsOfDoc : Doc R → Except Fault (List (String × Entry))
  | .map fields => wordsOfFields fields
  | _ => .error .notDictionary

/-- The lexicon of a taxonomy and a dictionary file. -/
def load [Scalar R] (taxonomy : Taxonomy) (source : Source R) : Except Fault Lexicon :=
  match source.menu with
  | .ok d => (wordsOfDoc d.orEmpty).map (build taxonomy)
  | .error e => .error (.menu e)

end DeliTalk.Lexicon
