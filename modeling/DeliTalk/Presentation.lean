import DeliTalk.Lexicon
import DeliTalk.Scalar
import DeliTalk.Sandwich

/-!
# Presentation: what a machine shows and says

The display gets a snapshot of the sandwich and its subtitles, of which only the latest matters.
On the audio side every syllable becomes two tones, one for its consonant and one for its vowel.
-/

namespace DeliTalk

/-! ## 1. The display -/

/-- A snapshot for the display. -/
structure Render where
  ingredients : List String := []
  subtitles : String := ""
  background : String := "#00000000"
deriving Repr, DecidableEq, Inhabited

/-- The snapshot of a sandwich. -/
def Render.of (s : Sandwich) (subtitles : String) : Render := ⟨s.names, subtitles, s.background⟩

/-- A display that holds one snapshot: a new one takes the place of an unread one. -/
structure Display where
  latest : Option Render := none
deriving Repr, Inhabited

namespace Display

/-- Shows a snapshot. -/
def present (_ : Display) (r : Render) : Display := ⟨some r⟩

/-- Takes the snapshot away. -/
def take (d : Display) : Option Render × Display := (d.latest, ⟨none⟩)

end Display

/-! ## 2. Tones -/

namespace Tone

variable {R : Type} [Scalar R]

/-- How long a syllable lasts, in seconds. -/
def syllableSeconds : R := 0.25

/-- The place in an alphabet at which some letters stand in a row. -/
def placeIn : List Char → List Char → Option Nat
  | letters, [] => if letters = [] then some 0 else none
  | letters, c :: rest =>
    if letters.isPrefixOf (c :: rest) then some 0 else (placeIn letters rest).map (· + 1)

/-- The pitch of a consonant by its place among the consonants. -/
def consonantHz (place : Nat) (pitch : R) : R := (1200.0 + 130.0 * Scalar.ofNat place) * pitch

/-- The pitch of a vowel by its place among the vowels. -/
def vowelHz (place : Nat) (pitch : R) : R := (690.0 + 80.0 * Scalar.ofNat place) * pitch

/-- The two tones of some letters. -/
def ofLetters (consonant vowel : String) (pitch : R) : Except Fault (R × R) :=
  match placeIn consonant.toList (Consonant.all.map (·.letter)),
    placeIn vowel.toList (Vowel.all.map (·.letter)) with
  | some i, some j => .ok (consonantHz i pitch, vowelHz j pitch)
  | _, _ => .error .unknownLetter

/-- The tones of every syllable of a phrase, and how long each lasts. -/
def ofPhrase (ts : List Tagged) (pitch : R) : List (R × R × R) :=
  (Phrase.sounds ts).map fun p =>
    (consonantHz (Consonant.all.idxOf p.1) pitch, vowelHz (Vowel.all.idxOf p.2) pitch,
      syllableSeconds)

/-- How long a phrase lasts, in seconds. -/
def duration (ts : List Tagged) : R := syllableSeconds * Scalar.ofNat (Phrase.sounds ts).length

end Tone

end DeliTalk
