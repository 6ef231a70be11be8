import DeliTalk.Lexicon
import DeliTalk.Proofs.Ending

/-!
# Spelling

What is written is read back: syllables, words, and the words of a phrase between single spaces.

* `Word.read_text`, `Word.text_of_read`: words and their texts.
* `Word.letters_injective`: a text is cut into syllables in one way.
* `Phrase.read_eq_ok_iff`: which words are read in a text.
* `Phrase.read_render`: a phrase that is said is heard word by word.
-/

namespace DeliTalk

/-! ## 1. Words -/

theorem Consonant.letter_of_ofLetter? {x : Char} {c : Consonant} (h : ofLetter? x = some c) :
    c.letter = x := by
  unfold ofLetter? at h
  split at h <;> cases h <;> rfl

theorem Vowel.letter_of_ofLetter? {x : Char} {v : Vowel} (h : ofLetter? x = some v) :
    v.letter = x := by
  unfold ofLetter? at h
  split at h <;> cases h <;> rfl

/-- A syllable is written with the letters it is read from. -/
theorem Syllable.letters_of_ofLetters? {x y : Char} {s : Syllable} (h : ofLetters? x y = some s) :
    s.letters = [x, y] := by
  unfold ofLetters? at h
  split at h
  · rename_i c v hc hv
    cases h
    simp [letters, first, second, Consonant.letter_of_ofLetter? hc, Vowel.letter_of_ofLetter? hv]
  · split at h
    · rename_i v c hv hc
      cases h
      simp [letters, first, second, Consonant.letter_of_ofLetter? hc,
        Vowel.letter_of_ofLetter? hv]
    · cases h

theorem Syllable.text_of_read {m : String} {s : Syllable} (h : read m = .ok s) :
    m = s.text := by
  unfold read at h
  split at h
  · rename_i x y hm
    split at h
    · rename_i hs
      cases h
      rw [text, letters_of_ofLetters? hs, ← hm, String.ofList_toList]
    · cases h
  · cases h

/-- No letter of the language separates words. -/
theorem Syllable.not_separator (s : Syllable) {c : Char} (hc : c ∈ s.letters) :
    c ≠ ' ' ∧ c ≠ '\n' := by
  have hconsonant : ∀ x : Consonant, x.letter ≠ ' ' ∧ x.letter ≠ '\n' := by
    intro x
    cases x <;> decide
  have hvowel : ∀ v : Vowel, v.letter ≠ ' ' ∧ v.letter ≠ '\n' := by
    intro v
    cases v <;> decide
  simp only [letters, List.mem_cons, List.not_mem_nil, or_false] at hc
  rcases hc with rfl | rfl
  · cases s with
    | consonantFirst x y => exact hconsonant x
    | vowelFirst y x => exact hvowel y
  · cases s with
    | consonantFirst x y => exact hvowel y
    | vowelFirst y x => exact hconsonant x

namespace Word

/-- The letters of syllables are cut into the syllables. -/
theorem cut_letters : ∀ ss : List Syllable, cut (ss.flatMap Syllable.letters) = .ok ss
  | [] => rfl
  | s :: ss => by
    have ih := cut_letters ss
    simp only [List.flatMap_cons, Syllable.letters, List.cons_append, List.nil_append]
    rw [cut, Syllable.ofLetters?_letters]
    simp only
    rw [ih]
    rfl

theorem flatMap_letters_injective {ss us : List Syllable}
    (h : ss.flatMap Syllable.letters = us.flatMap Syllable.letters) : ss = us := by
  have hss := cut_letters ss
  rw [h, cut_letters us] at hss
  exact (Except.ok.inj hss).symm

/-- **A word is cut in one way.** -/
theorem letters_injective {w v : Word} (h : w.letters = v.letters) : w = v := by
  obtain ⟨ss⟩ := w
  obtain ⟨us⟩ := v
  rw [show ss = us from flatMap_letters_injective h]

theorem text_injective {w v : Word} (h : w.text = v.text) : w = v :=
  letters_injective (String.ofList_injective h)

theorem letters_of_cut : ∀ {cs : List Char} {ss : List Syllable}, cut cs = .ok ss →
    ss.flatMap Syllable.letters = cs
  | [], ss, h => by
    cases h
    rfl
  | [x], ss, h => by cases h
  | x :: y :: rest, ss, h => by
    unfold cut at h
    split at h
    · rename_i s hs
      cases hrest : cut rest with
      | error e =>
        rw [hrest] at h
        cases h
      | ok us =>
        rw [hrest] at h
        cases h
        rw [List.flatMap_cons, Syllable.letters_of_ofLetters? hs, letters_of_cut hrest]
        rfl
    · cases h

theorem length_letters (w : Word) : w.letters.length = 2 * w.syllables.length := by
  obtain ⟨ss⟩ := w
  induction ss with
  | nil => rfl
  | cons s ss ih =>
    simp only [letters, List.flatMap_cons, List.length_append, List.length_cons] at ih ⊢
    rw [ih]
    simp only [Syllable.letters, List.length_cons, List.length_nil]
    omega

/-- **A word is read from its letters.** -/
theorem ofLetters_letters {w : Word} (h : w.syllables ≠ []) : ofLetters w.letters = .ok w := by
  have hlen := w.length_letters
  have hpos := List.length_pos_iff.mpr h
  have hne : ¬(w.letters = [] ∨ w.letters.length % 2 = 1) := by
    rintro (he | he)
    · rw [he, List.length_nil] at hlen
      omega
    · omega
  unfold ofLetters
  rw [if_neg hne, letters, cut_letters]
  rfl

/-- A word has the letters it is read from. -/
theorem letters_of_ofLetters {cs : List Char} {w : Word} (h : ofLetters cs = .ok w) :
    w.letters = cs ∧ w.syllables ≠ [] := by
  unfold ofLetters at h
  split at h
  · cases h
  · rename_i hne
    cases hc : cut cs with
    | error e =>
      rw [hc] at h
      cases h
    | ok ss =>
      rw [hc] at h
      cases h
      have hletters := letters_of_cut hc
      refine ⟨hletters, ?_⟩
      rintro rfl
      exact hne (Or.inl hletters.symm)

theorem read_text {w : Word} (h : w.syllables ≠ []) : read w.text = .ok w := by
  rw [read, text, String.toList_ofList, ofLetters_letters h]

theorem text_of_read {s : String} {w : Word} (h : read s = .ok w) :
    w.text = s ∧ w.syllables ≠ [] := by
  obtain ⟨hletters, hne⟩ := letters_of_ofLetters h
  exact ⟨by rw [text, hletters, String.ofList_toList], hne⟩

theorem not_separator (w : Word) {c : Char} (hc : c ∈ w.letters) : c ≠ ' ' ∧ c ≠ '\n' := by
  obtain ⟨s, -, hs⟩ := List.mem_flatMap.mp hc
  exact s.not_separator hs

end Word

/-! ## 2. Phrases -/

namespace Phrase

theorem letters_cons_cons (w v : Word) (ws : List Word) :
    letters (w :: v :: ws) = w.letters ++ ' ' :: letters (v :: ws) := rfl

theorem not_lineEnd : ∀ {ws : List Word} {c : Char}, c ∈ letters ws → c ≠ '\n'
  | [], c, h => by cases h
  | [w], c, h => (w.not_separator h).2
  | w :: v :: ws, c, h => by
    rw [letters_cons_cons, List.mem_append, List.mem_cons] at h
    rcases h with h | rfl | h
    · exact (w.not_separator h).2
    · decide
    · exact not_lineEnd h

theorem letters_ne_nil : ∀ {ws : List Word}, ws ≠ [] → (∀ w ∈ ws, w.syllables ≠ []) →
    letters ws ≠ []
  | [], h, _ => absurd rfl h
  | [w], _, h => fun he => by
    have := w.length_letters
    have hpos := List.length_pos_iff.mpr (h w List.mem_cons_self)
    rw [show w.letters = [] from he, List.length_nil] at this
    omega
  | w :: v :: ws, _, _ => by
    simp [letters_cons_cons]

theorem intercalate_letters : ∀ ws : List Word,
    [' '].intercalate (ws.map Word.letters) = letters ws
  | [] => rfl
  | [w] => by simp [letters]
  | w :: v :: ws => by
    have ih := intercalate_letters (v :: ws)
    simp only [List.map_cons] at ih
    rw [List.map_cons, List.map_cons, List.intercalate_cons_cons, ih, letters_cons_cons]
    simp

/-- The letters of words are read as these words. -/
theorem readAll_map_letters : ∀ {ws : List Word}, (∀ w ∈ ws, w.syllables ≠ []) →
    readAll (ws.map Word.letters) = .ok ws
  | [], _ => rfl
  | w :: ws, h => by
    have ih := readAll_map_letters fun u hu => h u (List.mem_cons_of_mem w hu)
    rw [List.map_cons, readAll, Word.ofLetters_letters (h w List.mem_cons_self), ih]
    rfl

/-- **The words of a phrase are read back**, since no word has a space in it. -/
theorem readAll_splitOn_letters {ws : List Word} (hne : ws ≠ [])
    (h : ∀ w ∈ ws, w.syllables ≠ []) : readAll ((letters ws).splitOn ' ') = .ok ws := by
  have hspaces : ∀ cs ∈ ws.map Word.letters, ' ' ∉ cs := by
    intro cs hcs hspace
    obtain ⟨w, -, rfl⟩ := List.mem_map.mp hcs
    exact (w.not_separator hspace).1 rfl
  rw [← intercalate_letters, List.splitOn_intercalate ' ' hspaces (by simpa using hne),
    readAll_map_letters h]

/-- Reading a row of pieces gives words with their letters, and each of them has syllables. -/
theorem readAll_eq_ok : ∀ {ps : List (List Char)} {ws : List Word}, readAll ps = .ok ws →
    ws.map Word.letters = ps ∧ ∀ w ∈ ws, w.syllables ≠ []
  | [], ws, h => by
    cases h
    exact ⟨rfl, nofun⟩
  | piece :: rest, ws, h => by
    unfold readAll at h
    cases hword : Word.ofLetters piece with
    | error e =>
      rw [hword] at h
      cases h
    | ok w =>
      cases hrest : readAll rest with
      | error e =>
        rw [hword, hrest] at h
        cases h
      | ok more =>
        rw [hword, hrest] at h
        cases h
        obtain ⟨hletters, hne⟩ := Word.letters_of_ofLetters hword
        obtain ⟨hmore, hall⟩ := readAll_eq_ok hrest
        exact ⟨by rw [List.map_cons, hletters, hmore], List.forall_mem_cons.mpr ⟨hne, hall⟩⟩

/-- One line end is dropped, and nothing else. -/
theorem dropLineEnd_cases (cs : List Char) :
    cs = dropLineEnd cs ∨ cs = dropLineEnd cs ++ ['\n'] := by
  unfold dropLineEnd
  by_cases hlast : cs.getLast? = some '\n'
  · obtain ⟨body, rfl⟩ := List.getLast?_eq_some_iff.mp hlast
    rw [if_pos hlast, List.dropLast_concat]
    exact Or.inr rfl
  · rw [if_neg hlast]
    exact Or.inl rfl

/-- **Which words are read in a text**: those whose letters it holds, between single spaces, with at
most one line end behind them. -/
theorem read_eq_ok_iff {s : String} {ws : List Word} : read s = .ok ws ↔
    ws ≠ [] ∧ (∀ w ∈ ws, w.syllables ≠ []) ∧
      (s.toList = letters ws ∨ s.toList = letters ws ++ ['\n']) := by
  constructor
  · intro h
    unfold read at h
    simp only at h
    split at h
    · cases h
    · obtain ⟨hpieces, hall⟩ := readAll_eq_ok h
      have hletters : letters ws = dropLineEnd s.toList := by
        rw [← intercalate_letters, hpieces, List.intercalate_splitOn]
      refine ⟨?_, hall, hletters ▸ dropLineEnd_cases s.toList⟩
      intro hnil
      rw [hnil, List.map_nil] at hpieces
      exact List.splitOn_ne_nil _ _ hpieces.symm
  · rintro ⟨hne, hall, hs⟩
    have hdrop : dropLineEnd s.toList = letters ws := by
      unfold dropLineEnd
      rcases hs with hs | hs
      · rw [hs, if_neg]
        exact fun hlast => not_lineEnd (List.mem_of_getLast? hlast) rfl
      · rw [hs, List.getLast?_concat, if_pos rfl, List.dropLast_concat]
    unfold read
    rw [hdrop]
    simp only
    rw [if_neg (letters_ne_nil hne hall), readAll_splitOn_letters hne hall]

theorem read_text {ws : List Word} (hne : ws ≠ []) (h : ∀ w ∈ ws, w.syllables ≠ []) :
    read (text ws) = .ok ws :=
  read_eq_ok_iff.mpr ⟨hne, h, Or.inl String.toList_ofList⟩

/-- The text of a phrase is its words with single spaces between them. -/
theorem intercalate_texts (ws : List Word) :
    String.intercalate " " (ws.map Word.text) = text ws := by
  apply String.toList_injective
  have htexts : (ws.map Word.text).map String.toList = ws.map Word.letters := by
    simp [Word.text, Function.comp_def]
  -- the separator is itself a text of characters
  rw [text, String.toList_intercalate, String.toList_ofList, String.toList_ofList, htexts,
    intercalate_letters]

/-- Tagged words are said like their words. -/
theorem render_eq_text (ts : List Tagged) : render ts = text (ts.map (·.word)) := by
  rw [← intercalate_texts, List.map_map]
  rfl

/-- **What is said is heard word by word.** -/
theorem read_render {ts : List Tagged} (hne : ts ≠ []) (h : ∀ t ∈ ts, t.word.syllables ≠ []) :
    read (render ts) = .ok (ts.map (·.word)) := by
  rw [render_eq_text]
  refine read_text (by simpa using hne) ?_
  intro w hw
  obtain ⟨t, ht, rfl⟩ := List.mem_map.mp hw
  exact h t ht

end Phrase

end DeliTalk
