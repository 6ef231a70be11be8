import DeliTalk.Proofs.Spelling

/-!
# Which texts are phrases

A text is a phrase exactly if it is written by the rules: tokens between single spaces, each of
them one or more pairs of a consonant and a vowel in either order, and at most one line end behind
them. The words that are read in it are written just so.

* `Syllabic`, `Token`, `Written`: the rules, letter by letter.
* `syllabic_iff`, `token_iff`, `written_iff`: what is written by the rules is written by syllables,
  by words, by phrases.
* `Phrase.countP_isLetter`: a phrase has two letters for every syllable.
* `Phrase.read_exactly`: what is read, what is lost, and what is read of what is written.
-/

namespace DeliTalk

/-! ## 1. The rules -/

/-- The letters of the consonants. -/
def Consonant.alphabet : List Char := ['p', 't', 'k', 'h', 'm', 'n', 'w', 'l', 's']

/-- The letters of the vowels. -/
def Vowel.alphabet : List Char := ['a', 'i', 'o', 'u', 'e']

namespace Orthography

/-- Whether two letters are a consonant and a vowel, in either order. -/
def Syllabic (x y : Char) : Prop :=
  (x ∈ Consonant.alphabet ∧ y ∈ Vowel.alphabet) ∨ (x ∈ Vowel.alphabet ∧ y ∈ Consonant.alphabet)

/-- One or more pairs of letters, one after the other. -/
def Token (cs : List Char) : Prop :=
  ∃ pairs : List (Char × Char), pairs ≠ [] ∧ (∀ p ∈ pairs, Syllabic p.1 p.2) ∧
    cs = pairs.flatMap fun p => [p.1, p.2]

/-- One or more tokens with single spaces between them, and at most one line end behind them. -/
def Written (cs : List Char) : Prop :=
  ∃ tokens : List (List Char), tokens ≠ [] ∧ (∀ t ∈ tokens, Token t) ∧
    (cs = [' '].intercalate tokens ∨ cs = [' '].intercalate tokens ++ ['\n'])

/-- Whether a character is a letter of the language. -/
def isLetter (c : Char) : Bool := c ∈ Consonant.alphabet || c ∈ Vowel.alphabet

/-! ## 2. What is written by the rules -/

theorem mem_consonants {x : Char} : x ∈ Consonant.alphabet ↔ ∃ c : Consonant, c.letter = x := by
  have halphabet : Consonant.alphabet = Consonant.all.map Consonant.letter := rfl
  have hall : ∀ c : Consonant, c ∈ Consonant.all := by
    intro c
    cases c <;> decide
  simp only [halphabet, List.mem_map, hall, true_and]

theorem mem_vowels {x : Char} : x ∈ Vowel.alphabet ↔ ∃ v : Vowel, v.letter = x := by
  have halphabet : Vowel.alphabet = Vowel.all.map Vowel.letter := rfl
  have hall : ∀ v : Vowel, v ∈ Vowel.all := by
    intro v
    cases v <;> decide
  simp only [halphabet, List.mem_map, hall, true_and]

/-- Two letters are a consonant and a vowel if a syllable is written with them. -/
theorem syllabic_iff {x y : Char} : Syllabic x y ↔ ∃ s : Syllable, s.letters = [x, y] := by
  simp only [Syllabic, mem_consonants, mem_vowels]
  constructor
  · rintro (⟨⟨c, rfl⟩, v, rfl⟩ | ⟨⟨v, rfl⟩, c, rfl⟩)
    · exact ⟨.consonantFirst c v, rfl⟩
    · exact ⟨.vowelFirst v c, rfl⟩
  · intro ⟨s, hs⟩
    simp only [Syllable.letters, List.cons.injEq, and_true] at hs
    obtain ⟨rfl, rfl⟩ := hs
    cases s with
    | consonantFirst c v => exact Or.inl ⟨⟨c, rfl⟩, v, rfl⟩
    | vowelFirst v c => exact Or.inr ⟨⟨v, rfl⟩, c, rfl⟩

/-- Pairs of letters are written like the syllables they are. -/
theorem exists_syllables : ∀ {pairs : List (Char × Char)}, (∀ p ∈ pairs, Syllabic p.1 p.2) →
    ∃ ss : List Syllable, ss.length = pairs.length ∧
      ss.flatMap Syllable.letters = pairs.flatMap fun p => [p.1, p.2]
  | [], _ => ⟨[], rfl, rfl⟩
  | p :: pairs, h => by
    obtain ⟨s, hs⟩ := syllabic_iff.mp (h p List.mem_cons_self)
    obtain ⟨ss, hlen, hss⟩ := exists_syllables fun q hq => h q (List.mem_cons_of_mem p hq)
    exact ⟨s :: ss, by simp [hlen], by simp only [List.flatMap_cons, hs, hss]⟩

/-- A token is what a word is written with. -/
theorem token_iff {cs : List Char} : Token cs ↔ ∃ w : Word, w.syllables ≠ [] ∧ w.letters = cs := by
  constructor
  · intro ⟨pairs, hne, hpairs, hcs⟩
    obtain ⟨ss, hlen, hss⟩ := exists_syllables hpairs
    refine ⟨⟨ss⟩, ?_, hss.trans hcs.symm⟩
    intro hnil
    rw [show ss = [] from hnil, List.length_nil] at hlen
    exact hne (List.length_eq_zero_iff.mp hlen.symm)
  · intro ⟨w, hne, hcs⟩
    refine ⟨w.syllables.map fun s => (s.first, s.second), by simpa using hne, ?_, ?_⟩
    · intro p hp
      obtain ⟨s, -, rfl⟩ := List.mem_map.mp hp
      exact syllabic_iff.mpr ⟨s, rfl⟩
    · rw [← hcs, List.flatMap_map]
      rfl

theorem exists_words : ∀ {tokens : List (List Char)}, (∀ t ∈ tokens, Token t) →
    ∃ ws : List Word, (∀ w ∈ ws, w.syllables ≠ []) ∧ ws.map Word.letters = tokens
  | [], _ => ⟨[], nofun, rfl⟩
  | t :: tokens, h => by
    obtain ⟨w, hw, rfl⟩ := token_iff.mp (h t List.mem_cons_self)
    obtain ⟨ws, hws, rfl⟩ := exists_words fun u hu => h u (List.mem_cons_of_mem _ hu)
    exact ⟨w :: ws, List.forall_mem_cons.mpr ⟨hw, hws⟩, rfl⟩

/-- **A text is written by the rules exactly if it holds the letters of a phrase.** -/
theorem written_iff {cs : List Char} : Written cs ↔ ∃ ws : List Word, ws ≠ [] ∧
    (∀ w ∈ ws, w.syllables ≠ []) ∧ (cs = Phrase.letters ws ∨ cs = Phrase.letters ws ++ ['\n']) := by
  constructor
  · intro ⟨tokens, hne, htokens, hcs⟩
    obtain ⟨ws, hws, rfl⟩ := exists_words htokens
    rw [Phrase.intercalate_letters] at hcs
    exact ⟨ws, by simpa using hne, hws, hcs⟩
  · intro ⟨ws, hne, hws, hcs⟩
    refine ⟨ws.map Word.letters, by simpa using hne, ?_, ?_⟩
    · intro t ht
      obtain ⟨w, hw, rfl⟩ := List.mem_map.mp ht
      exact token_iff.mpr ⟨w, hws w hw, rfl⟩
    · rwa [Phrase.intercalate_letters]

end Orthography

/-! ## 3. The letters of a phrase -/

open Orthography in
/-- **The letters of a syllable are its consonant and its vowel**, whichever comes first. -/
theorem Syllable.letters_eq (s : Syllable) : s.consonant.letter ∈ Consonant.alphabet ∧
    s.vowel.letter ∈ Vowel.alphabet ∧ (s.letters = [s.consonant.letter, s.vowel.letter] ∨
      s.letters = [s.vowel.letter, s.consonant.letter]) := by
  refine ⟨mem_consonants.mpr ⟨_, rfl⟩, mem_vowels.mpr ⟨_, rfl⟩, ?_⟩
  cases s with
  | consonantFirst c v => exact Or.inl rfl
  | vowelFirst v c => exact Or.inr rfl

open Orthography in
theorem Syllable.isLetter (s : Syllable) : ∀ c ∈ s.letters, isLetter c = true := by
  intro c hc
  simp only [Orthography.isLetter, Bool.or_eq_true, decide_eq_true_eq]
  obtain ⟨hconsonant, hvowel, horder⟩ := s.letters_eq
  have hmem : c = s.consonant.letter ∨ c = s.vowel.letter := by
    rcases horder with h | h
    · simpa [h] using hc
    · simpa [h, or_comm] using hc
  rcases hmem with rfl | rfl
  · exact Or.inl hconsonant
  · exact Or.inr hvowel

namespace Phrase

open Orthography

theorem countP_word (w : Word) : w.letters.countP isLetter = 2 * w.syllables.length := by
  rw [← w.length_letters, List.countP_eq_length]
  intro c hc
  obtain ⟨s, -, hs⟩ := List.mem_flatMap.mp hc
  exact s.isLetter c hs

/-- Only the letters of its words are letters of a phrase: two for every syllable. -/
theorem countP_isLetter : ∀ ws : List Word,
    (letters ws).countP isLetter = 2 * (ws.flatMap Word.syllables).length
  | [] => rfl
  | [w] => by simp [letters, countP_word]
  | w :: v :: ws => by
    have ih := countP_isLetter (v :: ws)
    have hspace : isLetter ' ' = false := by decide
    rw [letters_cons_cons, List.countP_append, List.countP_cons_of_neg (by simp [hspace]), ih,
      countP_word, ← Nat.mul_add, ← List.length_append]
    rfl

/-- A phrase has as many sounds as its words have syllables. -/
theorem length_sounds (ts : List Tagged) :
    (sounds ts).length = ((ts.map (·.word)).flatMap Word.syllables).length := by
  simp [sounds, List.length_flatMap, Function.comp_def]

/-! ## 4. The tokeniser -/

/-- A text is read exactly if it is written by the rules. -/
theorem exists_read_iff (s : String) : (∃ ws, read s = .ok ws) ↔ Written s.toList := by
  simp only [read_eq_ok_iff, written_iff]

/-- Reading loses nothing of a text but a line end. -/
theorem text_of_read {s : String} {ws : List Word} (h : read s = .ok ws) :
    s = String.intercalate " " (ws.map Word.text) ∨
      s = String.intercalate " " (ws.map Word.text) ++ "\n" := by
  obtain ⟨-, -, hs⟩ := read_eq_ok_iff.mp h
  rw [intercalate_texts, text]
  rcases hs with hs | hs
  · exact Or.inl (by rw [← hs, String.ofList_toList])
  · refine Or.inr (String.toList_injective ?_)
    rw [hs, String.toList_append, String.toList_ofList]
    rfl

theorem countP_of_read {s : String} {ws : List Word} (h : read s = .ok ws) :
    s.toList.countP isLetter = 2 * (ws.flatMap Word.syllables).length := by
  have hlineEnd : isLetter '\n' = false := by decide
  obtain ⟨-, -, hs⟩ := read_eq_ok_iff.mp h
  rcases hs with hs | hs
  · rw [hs, countP_isLetter]
  · rw [hs, List.countP_append, countP_isLetter, List.countP_singleton, hlineEnd]
    rfl

/-- **A text is read exactly if it is written by the rules, and nothing of it is lost.** A text is
read if and only if it is one or more tokens between single spaces with at most one line end behind
them. The words read in it give it back with single spaces between them; the consonant and the vowel
of each syllable are its two letters; and it has half as many sounds as letters. What is said is
read word by word. -/
theorem read_exactly :
    (∀ s : String, ((∃ ws, read s = .ok ws) ↔ Written s.toList) ∧
      ∀ ws, read s = .ok ws →
        (s = String.intercalate " " (ws.map Word.text) ∨
          s = String.intercalate " " (ws.map Word.text) ++ "\n") ∧
        (∀ w ∈ ws, ∀ x ∈ w.syllables, x.consonant.letter ∈ Consonant.alphabet ∧
          x.vowel.letter ∈ Vowel.alphabet ∧ (x.letters = [x.consonant.letter, x.vowel.letter] ∨
            x.letters = [x.vowel.letter, x.consonant.letter])) ∧
        ∀ ts : List Tagged, ts.map (·.word) = ws →
          2 * (sounds ts).length = s.toList.countP isLetter) ∧
    ∀ ts : List Tagged, ts ≠ [] → (∀ t ∈ ts, t.word.syllables ≠ []) →
      read (render ts) = .ok (ts.map (·.word)) := by
  refine ⟨?_, ?_⟩
  · intro s
    refine ⟨exists_read_iff s, ?_⟩
    intro ws h
    refine ⟨text_of_read h, fun w _ x _ => x.letters_eq, ?_⟩
    intro ts hts
    rw [length_sounds, hts, countP_of_read h]
  · intro ts hne hts
    exact read_render hne hts

end Phrase

end DeliTalk
