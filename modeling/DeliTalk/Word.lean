import DeliTalk.Text.Quoted

/-!
# Words of the machine language

A syllable is one consonant and one vowel, in either order. A word is a run of syllables, a
phrase is words separated by single spaces.

* `Syllable.read`, `Word.read`, `Phrase.read`: from text, with the reason when a text is not
  of the language. A single line end after a phrase is tolerated.
* `Syllable.letters`, `Word.text`, `Phrase.text`: back to text.
-/

namespace DeliTalk

/-! ## 1. Letters -/

/-- The nine consonants. -/
inductive Consonant where
  | p | t | k | h | m | n | w | l | s
deriving Repr, DecidableEq

/-- The five vowels. -/
inductive Vowel where
  | a | i | o | u | e
deriving Repr, DecidableEq

namespace Consonant

/-- Every consonant, in the order of their tones. -/
def all : List Consonant := [p, t, k, h, m, n, w, l, s]

/-- The letter a consonant is written with. -/
def letter : Consonant → Char
  | p => 'p' | t => 't' | k => 'k' | h => 'h' | m => 'm' | n => 'n' | w => 'w' | l => 'l'
  | s => 's'

/-- The consonant a letter writes. -/
def ofLetter? : Char → Option Consonant
  | 'p' => some p | 't' => some t | 'k' => some k | 'h' => some h | 'm' => some m
  | 'n' => some n | 'w' => some w | 'l' => some l | 's' => some s
  | _ => none

@[simp] theorem ofLetter?_letter (c : Consonant) : ofLetter? c.letter = some c := by
  cases c <;> rfl

end Consonant

namespace Vowel

/-- Every vowel, in the order of their tones. -/
def all : List Vowel := [a, i, o, u, e]

/-- The letter a vowel is written with. -/
def letter : Vowel → Char
  | a => 'a' | i => 'i' | o => 'o' | u => 'u' | e => 'e'

/-- The vowel a letter writes. -/
def ofLetter? : Char → Option Vowel
  | 'a' => some a | 'i' => some i | 'o' => some o | 'u' => some u | 'e' => some e
  | _ => none

@[simp] theorem ofLetter?_letter (v : Vowel) : ofLetter? v.letter = some v := by
  cases v <;> rfl

end Vowel

/-! ## 2. Syllables, words, phrases -/

/-- One consonant and one vowel, in either order. -/
inductive Syllable where
  | consonantFirst (consonant : Consonant) (vowel : Vowel)
  | vowelFirst (vowel : Vowel) (consonant : Consonant)
deriving Repr, DecidableEq

/-- A run of syllables. -/
structure Word where
  syllables : List Syllable
deriving Repr, DecidableEq

/-- Why a text is not of the language. -/
inductive Misspelling where
  | syllableLength (text : String)
  | notSyllable (text : String)
  | undecomposable (text : String)
  | emptyPhrase
deriving Repr, DecidableEq

namespace Misspelling

/-- The wording of a misspelling. -/
def message : Misspelling → String
  | syllableLength text => "Syllable must be two letters, got " ++ Text.quoted text
  | notSyllable text => "Not a CV or VC syllable: " ++ Text.quoted text
  | undecomposable text => "Not decomposable into syllables: " ++ Text.quoted text
  | emptyPhrase => "Empty phrase"

end Misspelling

namespace Syllable

/-- The consonant of a syllable. -/
def consonant : Syllable → Consonant
  | consonantFirst c _ => c
  | vowelFirst _ c => c

/-- The vowel of a syllable. -/
def vowel : Syllable → Vowel
  | consonantFirst _ v => v
  | vowelFirst v _ => v

/-- The letter a syllable starts with. -/
def first : Syllable → Char
  | consonantFirst c _ => c.letter
  | vowelFirst v _ => v.letter

/-- The letter a syllable ends with. -/
def second : Syllable → Char
  | consonantFirst _ v => v.letter
  | vowelFirst _ c => c.letter

/-- The two letters of a syllable. -/
def letters (s : Syllable) : List Char := [s.first, s.second]

/-- A syllable as text. -/
def text (s : Syllable) : String := String.ofList s.letters

/-- The syllable two letters write. -/
def ofLetters? (x y : Char) : Option Syllable :=
  match Consonant.ofLetter? x, Vowel.ofLetter? y with
  | some c, some v => some (consonantFirst c v)
  | _, _ =>
    match Vowel.ofLetter? x, Consonant.ofLetter? y with
    | some v, some c => some (vowelFirst v c)
    | _, _ => none

/-- Reads one syllable. -/
def read (s : String) : Except Misspelling Syllable :=
  match s.toList with
  | [x, y] =>
    match ofLetters? x y with
    | some syllable => .ok syllable
    | none => .error (.notSyllable s)
  | _ => .error (.syllableLength s)

theorem ofLetters?_letters (s : Syllable) : ofLetters? s.first s.second = some s := by
  cases s with
  | consonantFirst c v => simp [ofLetters?, first, second]
  | vowelFirst v c => cases v <;> cases c <;> rfl

end Syllable

namespace Word

/-- The letters of a word. -/
def letters (w : Word) : List Char := w.syllables.flatMap Syllable.letters

/-- A word as text. -/
def text (w : Word) : String := String.ofList w.letters

/-- Cuts a text into syllables, from left to right. -/
def cut : List Char → Except Misspelling (List Syllable)
  | [] => .ok []
  | x :: y :: rest =>
    match Syllable.ofLetters? x y with
    | some syllable => (cut rest).map (syllable :: ·)
    | none => .error (.notSyllable (String.ofList [x, y]))
  | [x] => .error (.undecomposable (String.ofList [x]))

/-- Reads the letters of a word. -/
def ofLetters (cs : List Char) : Except Misspelling Word :=
  if cs = [] ∨ cs.length % 2 = 1 then .error (.undecomposable (String.ofList cs))
  else (cut cs).map Word.mk

/-- Reads a word. -/
def read (s : String) : Except Misspelling Word := ofLetters s.toList

end Word

namespace Phrase

/-- A text without one line end at its end. -/
def dropLineEnd (cs : List Char) : List Char :=
  if cs.getLast? = some '\n' then cs.dropLast else cs

/-- Reads the words of a list of pieces, stopping at the first that is none. -/
def readAll : List (List Char) → Except Misspelling (List Word)
  | [] => .ok []
  | piece :: rest => do
    let word ← Word.ofLetters piece
    let words ← readAll rest
    return word :: words

/-- Reads a phrase. -/
def read (s : String) : Except Misspelling (List Word) :=
  let cs := dropLineEnd s.toList
  if cs = [] then .error .emptyPhrase else readAll (cs.splitOn ' ')

/-- The letters of a phrase, words separated by single spaces. -/
def letters : List Word → List Char
  | [] => []
  | [w] => w.letters
  | w :: rest => w.letters ++ ' ' :: letters rest

/-- A phrase as text. -/
def text (ws : List Word) : String := String.ofList (letters ws)

end Phrase

end DeliTalk
