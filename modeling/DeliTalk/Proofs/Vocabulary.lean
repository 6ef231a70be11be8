import DeliTalk.Proofs.SoundLanguage

/-!
# Words and nodes, both ways

Reading a word skips the first syllable and every syllable no child claims, so it never fails and
says little about the word. Going down the word of a node is another matter: where morphemes are
syllables and siblings have different ones, each syllable leads one node on, to the node the word
was made for and from there nowhere else.

* `Taxonomy.Spelled.wordFor?_of_mem`: the word of a node is the one next to it in the walk.
* `Taxonomy.Spelled.words_and_nodes`: every node has a word of its own, which leads to it, and no
  word list takes the word of a leaf away.
-/

namespace DeliTalk.Taxonomy

variable {t : Taxonomy}

/-- The word of a node is the one next to it in the walk. -/
theorem Spelled.wordFor?_of_mem (h : t.Spelled) {p : Ingredient × String} (hp : p ∈ t.walk) :
    t.wordFor? p.1 = some p.2 := by
  rw [wordFor?_eq, h.find?_name hp, Option.map_some]

/-- **Words and nodes map onto each other** in a tree whose nodes can be told apart. No two nodes
have the same word. The word of a node can be read and leads to the node; with more syllables after
it, none of which belongs to a child of the node, it still does. In the lexicon over any word list
the word of a leaf is the noun for that leaf. -/
theorem Spelled.words_and_nodes (h : t.Spelled) :
    t.walk.Pairwise (fun p q => t.wordFor? p.1 ≠ t.wordFor? q.1) ∧
    ∀ p ∈ t.walk, ∃ w : Word, t.wordFor? p.1 = some w.text ∧ Word.read w.text = .ok w ∧
      t.ingredientFor w = p.1.given ∧
      (∀ more : List Syllable, (∀ s ∈ more, ∀ c ∈ p.1.kids, c.morpheme ≠ s.text) →
        Word.read (w.text ++ (Word.mk more).text) = .ok ⟨w.syllables ++ more⟩ ∧
          t.ingredientFor ⟨w.syllables ++ more⟩ = p.1.given) ∧
      (p.1.isLeaf = true → ∀ words : List (String × Entry),
        (Lexicon.build t words).lookup? w.text = some ⟨.ingredient, .noun, p.1.name⟩) := by
  refine ⟨?_, fun p hp => ?_⟩
  · have hnames : t.walk.Pairwise fun p q => p.1.name ≠ q.1.name := List.pairwise_map.mp h.names
    refine hnames.imp_of_mem fun {p q} hp hq hne heq => hne ?_
    rw [h.wordFor?_of_mem hp, h.wordFor?_of_mem hq] at heq
    rw [h.word_injective hp hq (Option.some.inj heq)]
  · obtain ⟨w, hread, htext, hne⟩ := h.exists_word hp
    rw [← htext] at hread
    refine ⟨w, htext ▸ h.wordFor?_of_mem hp, hread, h.ingredientFor_word hp htext,
      fun more hmore => ⟨?_, h.ingredientFor_append hp htext hmore⟩, fun hleaf words => ?_⟩
    · have hlonger : w.text ++ (Word.mk more).text = (Word.mk (w.syllables ++ more)).text := by
        rw [Word.text, Word.text, ← String.ofList_append, Word.text, Word.letters, Word.letters,
          Word.letters, List.flatMap_append]
      rw [hlonger, Word.read_text (List.append_ne_nil_of_left_ne_nil hne more)]
    · rw [htext]
      exact Lexicon.lookup?_of_isLeaf words h hp hleaf

namespace House

/-- The vegetables of the house. -/
def vegetable : Ingredient :=
  category "vegetable" "we"
    [item "lettuce" "ta", item "tomato" "to", item "onion" "on", item "pickle" "pi",
      item "avocado" "ak"]

/-- Two syllables no vegetable claims change nothing about the word of the vegetables. -/
theorem ingredientFor_vegetable : house.wordFor? vegetable = some "sawe" ∧
    ∃ w, Word.read "sawekeke" = .ok w ∧ house.ingredientFor w = vegetable := by
  have hmem : (vegetable, "sawe") ∈ house.walk := by
    refine mem_walk_of_mem_kids house.root_mem_walk (c := vegetable) ?_
    exact List.mem_cons_of_mem _ (List.mem_cons_of_mem _ List.mem_cons_self)
  obtain ⟨-, hnodes⟩ := Lexicon.sound_house.tree.words_and_nodes
  obtain ⟨w, hword, -, -, hmore, -⟩ := hnodes _ hmem
  have hsawe : house.wordFor? vegetable = some "sawe" :=
    Lexicon.sound_house.tree.wordFor?_of_mem hmem
  have htext : w.text = "sawe" := Option.some.inj (hword.symm.trans hsawe)
  have hke : ∀ s ∈ [Syllable.consonantFirst .k .e, .consonantFirst .k .e],
      ∀ c ∈ vegetable.kids, c.morpheme ≠ s.text := by decide
  obtain ⟨hread, hnode⟩ := hmore _ hke
  rw [htext] at hread
  exact ⟨hsawe, _, hread, hnode⟩

end House

end DeliTalk.Taxonomy
