import DeliTalk.Taxonomy

/-!
# The lexicon: surface words to entries, and back

A lexicon is the static word list plus one noun for every leaf of the taxonomy, kept in the
order of the words. When several words share a usage the first one is taken, so that encoding
is reproducible.

* `Tagged`: a word with what the lexicon or a listener makes of it.
* `Lexicon.build`: from a taxonomy and a word list; a leaf's noun replaces a word of the list.
* `Lexicon.lookup?`, `annotated`: from words to entries.
* `Lexicon.wordForUsage`, `wordForIngredient`, `wordForNumber`: from meanings to words.
-/

namespace DeliTalk

/-- A word with its part of speech and its sense, as far as they are known. -/
structure Tagged where
  word : Word
  part : Option Part := none
  entry : Option Entry := none
deriving Repr, DecidableEq

namespace Tagged

/-- What the word is used for. -/
def usage? (t : Tagged) : Option Usage := t.entry.map (·.usage)

/-- Whether the word is used in a given way. -/
def is (t : Tagged) (u : Usage) : Bool := t.usage? == some u

/-- Whether the word is a noun. -/
def isNoun (t : Tagged) : Bool := t.part == some .noun

/-- The word as text. -/
def text (t : Tagged) : String := t.word.text

/-- The gloss of the word, or a question mark. -/
def gloss (t : Tagged) : String := (t.entry.map (·.gloss)).getD "?"

end Tagged

/-- Tagged words as text. -/
def Phrase.render (ts : List Tagged) : String := String.intercalate " " (ts.map Tagged.text)

/-- The glosses of tagged words, for display. -/
def Phrase.subtitles (ts : List Tagged) : String := String.intercalate " " (ts.map Tagged.gloss)

/-- The consonant and the vowel of every syllable of a phrase. -/
def Phrase.sounds (ts : List Tagged) : List (Consonant × Vowel) :=
  ts.flatMap fun t => t.word.syllables.map fun s => (s.consonant, s.vowel)

/-- Words with their entries in the order of the words, over a taxonomy. -/
structure Lexicon where
  taxonomy : Taxonomy
  entries : List (String × Entry)

namespace Lexicon

/-- Writes a word into an ordered word list. -/
def insertWord (word : String) (entry : Entry) : List (String × Entry) → List (String × Entry)
  | [] => [(word, entry)]
  | (other, old) :: rest =>
    if word = other then (word, entry) :: rest
    else if word < other then (word, entry) :: (other, old) :: rest
    else (other, old) :: insertWord word entry rest

/-- The lexicon of a taxonomy and a word list. -/
def build (taxonomy : Taxonomy) (words : List (String × Entry)) : Lexicon :=
  let listed := words.foldl (fun es p => insertWord p.1 p.2 es) []
  let nouns := taxonomy.leaves.map fun p => (p.2, Entry.ofIngredient p.1.name)
  ⟨taxonomy, nouns.foldl (fun es p => insertWord p.1 p.2 es) listed⟩

/-- The entry of a word. -/
def lookup? (lex : Lexicon) (word : String) : Option Entry := Register.find? word lex.entries

/-- Every distinct entry once, in the order of the words. -/
def uniqueEntries (lex : Lexicon) : List Entry :=
  lex.entries.foldl (fun seen p => if p.2 ∈ seen then seen else seen ++ [p.2]) []

/-! ## 1. Reading words -/

/-- A misspelling as a fault. -/
def spelled {α : Type} : Except Misspelling α → Except Fault α
  | .ok a => .ok a
  | .error e => .error (.misspelling e)

/-- A word with its entry. -/
def annotated (lex : Lexicon) (text : String) : Except Fault Tagged := do
  let word ← spelled (Word.read text)
  let entry := lex.lookup? text
  return ⟨word, entry.map (·.part), entry⟩

/-! ## 2. Words for meanings -/

/-- The first word of a usage, with its entry. -/
def entryForUsage (lex : Lexicon) (usage : Usage) : Except Fault (String × Entry) :=
  match lex.entries.find? (·.2.usage == usage) with
  | some p => .ok p
  | none => .error (.missing (.usage usage))

/-- The word that serves a usage. -/
def wordForUsage (lex : Lexicon) (usage : Usage) : Except Fault Tagged := do
  lex.annotated (← lex.entryForUsage usage).1

/-- The word of an ingredient. -/
def wordForIngredient (lex : Lexicon) (i : Ingredient) : Except Fault Tagged :=
  match lex.taxonomy.wordFor? i with
  | none => .error (.missing (.ingredientWord i.name))
  | some text => do
    let word ← spelled (Word.read text)
    return ⟨word, some .noun, some (Entry.ofIngredient i.name)⟩

/-- The value of an entry's number. -/
def numberOf (entry : Entry) : Except Fault (Option Nat) :=
  match entry.number? with
  | .ok n => .ok n
  | .error cause => .error (.unreadableNumber cause)

/-- The first number word of a list with a given value. -/
def findNumber (value : Int) : List (String × Entry) → Except Fault String
  | [] => .error (.missing (.numberWord value))
  | (text, entry) :: rest =>
    if entry.usage = .number then do
      match ← numberOf entry with
      | some n => if (n : Int) = value then return text else findNumber value rest
      | none => findNumber value rest
    else findNumber value rest

/-- The word of a number. -/
def wordForNumber (lex : Lexicon) (value : Int) : Except Fault Tagged := do
  lex.annotated (← findNumber value lex.entries)

/-- The largest of the numbers a word list has words for, zero if it has none. -/
def greatestNumber : List (String × Entry) → Except Fault Nat
  | [] => .ok 0
  | (_, entry) :: rest =>
    if entry.usage = .number then do
      let n ← numberOf entry
      return max (n.getD 0) (← greatestNumber rest)
    else greatestNumber rest

/-- The largest number the lexicon has a word for. -/
def largestNumber (lex : Lexicon) : Except Fault Nat := greatestNumber lex.entries

end Lexicon

end DeliTalk
