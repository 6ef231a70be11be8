import DeliTalk.Lexicon.House
import DeliTalk.Proofs.Derivation
import DeliTalk.Proofs.TreeWords
import Mathlib.Data.String.Basic

/-!
# Sound languages

A menu and a word list make a sound language when nodes can be told apart, the words are words
of the language and none of them is the word of a node, and there is a word for every usage. What
is said in a sound language is annotated as it was meant.

* `Lexicon.lookup?_of_mem`, `lookup?_of_isLeaf`: entries and leaves are found under their words.
* `Lexicon.findNumber_cases`: what becomes of the search for a number.
* `Lexicon.Sound`, `Lexicon.Clear`: sound languages, and those that need not read every number.
* `Lexicon.Clear.exists_usage_word`, `exists_number_word`, `exists_noun`: the words for usages,
  numbers and ingredients, and what a listener annotates them with.
-/

namespace DeliTalk

/-- A value is found under its name if no name stands twice. -/
theorem Register.find?_of_mem {V : Type} : ∀ {r : Register V} {name : String} {value : V},
    (keys r).Nodup → (name, value) ∈ r → find? name r = some value
  | (key, old) :: rest, name, value, h, hm => by
    rw [keys, List.map_cons, List.nodup_cons] at h
    rw [find?]
    rcases List.mem_cons.mp hm with heq | hm
    · cases heq
      rw [if_pos rfl]
    · have hne : key ≠ name := by
        rintro rfl
        exact h.1 (List.mem_map.mpr ⟨_, hm, rfl⟩)
      rw [if_neg hne]
      exact find?_of_mem h.2 hm

/-- Whether an entry is of a word for a number. -/
def Entry.IsNumber (e : Entry) (value : Int) : Prop :=
  e.usage = .number ∧ ∃ m : Nat, e.number? = .ok (some m) ∧ (m : Int) = value

/-- Whether an entry is of no number word that cannot be read. -/
def Entry.Reads (e : Entry) : Prop := e.usage = .number → ∃ n, e.number? = .ok n

namespace Lexicon

/-! ## 1. Word lists -/

section WordLists

variable {word : String} {entry : Entry}

theorem find?_insertWord (k : String) : ∀ es : List (String × Entry),
    Register.find? k (insertWord word entry es) =
      if word = k then some entry else Register.find? k es
  | [] => rfl
  | (other, old) :: rest => by
    rw [insertWord]
    by_cases h : word = other
    · subst h
      rw [if_pos rfl, Register.find?, Register.find?]
      by_cases hk : word = k <;> simp [hk]
    · rw [if_neg h]
      by_cases hlt : word < other
      · rw [if_pos hlt, Register.find?]
      · rw [if_neg hlt, Register.find?, Register.find?, find?_insertWord k rest]
        by_cases hk : other = k
        · subst hk
          rw [if_pos rfl, if_pos rfl, if_neg h]
        · rw [if_neg hk, if_neg hk]

theorem mem_insertWord {p : String × Entry} : ∀ {es : List (String × Entry)},
    p ∈ insertWord word entry es → p = (word, entry) ∨ p ∈ es
  | [], h => Or.inl (List.mem_singleton.mp h)
  | (other, old) :: rest, h => by
    rw [insertWord] at h
    split at h
    · exact (List.mem_cons.mp h).imp id (List.mem_cons_of_mem _)
    · split at h
      · exact List.mem_cons.mp h
      · rcases List.mem_cons.mp h with rfl | h
        · exact Or.inr List.mem_cons_self
        · exact (mem_insertWord h).imp id (List.mem_cons_of_mem _)

/-- Whether the words of a list stand in order, none of them twice. -/
def Ordered (es : List (String × Entry)) : Prop := (Register.keys es).Pairwise (· < ·)

theorem Ordered.insertWord : ∀ {es : List (String × Entry)}, Ordered es →
    Ordered (insertWord word entry es)
  | [], _ => List.pairwise_singleton _ _
  | (other, old) :: rest, h => by
    have hcons := List.pairwise_cons.mp h
    rw [Lexicon.insertWord]
    by_cases he : word = other
    · subst he
      rw [if_pos rfl]
      exact List.pairwise_cons.mpr hcons
    · rw [if_neg he]
      by_cases hlt : word < other
      · rw [if_pos hlt]
        refine List.pairwise_cons.mpr ⟨?_, h⟩
        intro k hk
        rcases List.mem_cons.mp hk with rfl | hk
        · exact hlt
        · exact hlt.trans (hcons.1 k hk)
      · rw [if_neg hlt]
        refine List.pairwise_cons.mpr ⟨?_, Ordered.insertWord hcons.2⟩
        intro k hk
        obtain ⟨p, hp, rfl⟩ := List.mem_map.mp hk
        rcases mem_insertWord hp with rfl | hp
        · exact lt_of_le_of_ne (not_lt.mp hlt) (Ne.symm he)
        · exact hcons.1 p.1 (List.mem_map_of_mem hp)

end WordLists

/-- Several words written into a list. -/
def insertAll (ps es : List (String × Entry)) : List (String × Entry) :=
  ps.foldl (fun es p => insertWord p.1 p.2 es) es

theorem Ordered.insertAll : ∀ (ps : List (String × Entry)) {es : List (String × Entry)},
    Ordered es → Ordered (insertAll ps es)
  | [], _, h => h
  | _ :: ps, _, h => Ordered.insertAll ps h.insertWord

theorem mem_insertAll {q : String × Entry} : ∀ {ps es : List (String × Entry)},
    q ∈ insertAll ps es → q ∈ ps ∨ q ∈ es
  | [], _, h => Or.inr h
  | p :: ps, es, h => by
    rcases @mem_insertAll q ps _ h with h | h
    · exact Or.inl (List.mem_cons_of_mem p h)
    · refine (mem_insertWord h).imp (fun he => ?_) id
      rw [he]
      exact List.mem_cons_self

/-- What was not written is as it was. -/
theorem find?_insertAll_of_notMem {k : String} : ∀ {ps es : List (String × Entry)},
    (∀ p ∈ ps, p.1 ≠ k) → Register.find? k (insertAll ps es) = Register.find? k es
  | [], _, _ => rfl
  | p :: ps, es, h => by
    rw [insertAll, List.foldl_cons]
    have ih := @find?_insertAll_of_notMem k ps (insertWord p.1 p.2 es)
      fun q hq => h q (List.mem_cons_of_mem p hq)
    rw [insertAll] at ih
    rw [ih, find?_insertWord, if_neg (h p List.mem_cons_self)]

/-- What was written is there, if it was always written the same. -/
theorem find?_insertAll_of_mem {k : String} {e : Entry} : ∀ {ps es : List (String × Entry)},
    (k, e) ∈ ps → (∀ p ∈ ps, p.1 = k → p.2 = e) →
    Register.find? k (insertAll ps es) = some e
  | p :: ps, es, hm, h => by
    by_cases hlater : ∃ q ∈ ps, q.1 = k
    · obtain ⟨q, hq, hk⟩ := hlater
      have he := h q (List.mem_cons_of_mem p hq) hk
      refine @find?_insertAll_of_mem k e ps _ ?_ fun q hq => h q (List.mem_cons_of_mem p hq)
      rw [← hk, ← he]
      exact hq
    · have hnone : ∀ q ∈ ps, q.1 ≠ k := fun q hq hk => hlater ⟨q, hq, hk⟩
      have hp : p = (k, e) := by
        rcases List.mem_cons.mp hm with rfl | hm
        · rfl
        · exact absurd rfl (hnone _ hm)
      subst hp
      have := @find?_insertAll_of_notMem k ps (insertWord k e es) hnone
      rw [insertAll] at this ⊢
      rw [List.foldl_cons, this, find?_insertWord, if_pos rfl]

/-! ## 2. Lexicons -/

/-- The nouns of a menu. -/
def nouns (t : Taxonomy) : List (String × Entry) :=
  t.leaves.map fun p => (p.2, Entry.ofIngredient p.1.name)

variable {t : Taxonomy} {words : List (String × Entry)}

theorem entries_build : (build t words).entries = insertAll (nouns t) (insertAll words []) := rfl

theorem taxonomy_build : (build t words).taxonomy = t := rfl

/-- **Every entry is found under its word.** -/
theorem lookup?_of_mem {p : String × Entry} (h : p ∈ (build t words).entries) :
    (build t words).lookup? p.1 = some p.2 := by
  have hordered : Ordered (build t words).entries :=
    Ordered.insertAll _ (Ordered.insertAll _ List.Pairwise.nil)
  exact Register.find?_of_mem (hordered.imp fun hlt => hlt.ne) h

theorem mem_nouns {q : String × Entry} : q ∈ nouns t ↔
    ∃ p ∈ t.walk, p.1.isLeaf = true ∧ q = (p.2, Entry.ofIngredient p.1.name) := by
  unfold nouns Taxonomy.leaves
  rw [List.map_map, List.mem_map]
  refine ⟨?_, ?_⟩
  · rintro ⟨p, hp, rfl⟩
    exact ⟨p, (List.mem_filter.mp hp).1, (List.mem_filter.mp hp).2, rfl⟩
  · rintro ⟨p, hp, hleaf, rfl⟩
    exact ⟨p, List.mem_filter.mpr ⟨hp, hleaf⟩, rfl⟩

/-- The word of a leaf is the leaf's, over any word list. -/
theorem lookup?_of_isLeaf (words : List (String × Entry)) (h : t.Spelled) {p : Ingredient × String}
    (hp : p ∈ t.walk) (hleaf : p.1.isLeaf = true) :
    (build t words).lookup? p.2 = some (Entry.ofIngredient p.1.name) := by
  refine find?_insertAll_of_mem (mem_nouns.mpr ⟨p, hp, hleaf, rfl⟩) ?_
  intro q hq heq
  obtain ⟨r, hr, -, rfl⟩ := mem_nouns.mp hq
  rw [h.word_injective hr hp heq]

/-- An entry that is no ingredient's comes from the word list. -/
theorem mem_words_of_mem {p : String × Entry} (hp : p ∈ (build t words).entries)
    (hu : p.2.usage ≠ .ingredient) : p ∈ words := by
  rw [entries_build] at hp
  rcases mem_insertAll hp with hp | hp
  · obtain ⟨q, -, -, rfl⟩ := mem_nouns.mp hp
    exact absurd rfl hu
  · rcases mem_insertAll hp with hp | hp
    · exact hp
    · cases hp

/-- The word of a usage comes from an entry with that usage. -/
theorem mem_of_entryForUsage {lex : Lexicon} {u : Usage} {p : String × Entry}
    (h : lex.entryForUsage u = .ok p) : p ∈ lex.entries ∧ p.2.usage = u := by
  unfold entryForUsage at h
  split at h
  · rename_i hfind
    cases h
    exact ⟨List.mem_of_find?_eq_some hfind, by simpa using List.find?_some hfind⟩
  · cases h

/-! ## 3. Number words -/

section Numbers

variable {value : Int} {p : String × Entry} {es : List (String × Entry)}

theorem findNumber_of_isNumber (h : p.2.IsNumber value) :
    findNumber value (p :: es) = .ok p.1 := by
  obtain ⟨text, e⟩ := p
  obtain ⟨hu, m, hm, hvalue⟩ := h
  simp only at hu hm
  simp [findNumber, hu, numberOf, hm, hvalue, bind, Except.bind, pure, Except.pure]

theorem findNumber_of_reads (h : p.2.Reads) (hp : ¬ p.2.IsNumber value) :
    findNumber value (p :: es) = findNumber value es := by
  obtain ⟨text, e⟩ := p
  simp only [Entry.Reads, Entry.IsNumber] at h hp
  rw [findNumber]
  split
  · rename_i hu
    obtain ⟨k, hk⟩ := h hu
    rw [numberOf, hk]
    cases k with
    | none => rfl
    | some m =>
      have hne : (m : Int) ≠ value := fun heq => hp ⟨hu, m, hk, heq⟩
      simp only [bind, Except.bind, if_neg hne]
  · rfl

theorem findNumber_of_not_reads (h : ¬ p.2.Reads) :
    ∃ cause, findNumber value (p :: es) = .error (.unreadableNumber cause) := by
  obtain ⟨text, e⟩ := p
  simp only [Entry.Reads, Classical.not_imp, not_exists] at h
  obtain ⟨hu, hk⟩ := h
  cases hnumber : e.number? with
  | ok k => exact absurd hnumber (hk k)
  | error cause =>
    refine ⟨cause, ?_⟩
    rw [findNumber, if_pos hu, numberOf, hnumber]
    rfl

/-- **What becomes of the search for a number**: an entry has it, or all entries can be read and none
has it, or one cannot be read. -/
theorem findNumber_cases (value : Int) : ∀ es : List (String × Entry),
    (∃ p ∈ es, p.2.IsNumber value ∧ findNumber value es = .ok p.1) ∨
      ((∀ p ∈ es, p.2.Reads ∧ ¬ p.2.IsNumber value) ∧
        findNumber value es = .error (.missing (.numberWord value))) ∨
      ∃ p ∈ es, ¬ p.2.Reads ∧ ∃ cause, findNumber value es = .error (.unreadableNumber cause)
  | [] => Or.inr (Or.inl ⟨nofun, rfl⟩)
  | p :: es => by
    by_cases hp : p.2.IsNumber value
    · exact Or.inl ⟨p, List.mem_cons_self, hp, findNumber_of_isNumber hp⟩
    · by_cases hreads : p.2.Reads
      · rw [findNumber_of_reads hreads hp]
        rcases findNumber_cases value es with ⟨q, hq, hfound⟩ | ⟨hall, hmissing⟩ | ⟨q, hq, hfails⟩
        · exact Or.inl ⟨q, List.mem_cons_of_mem p hq, hfound⟩
        · exact Or.inr (Or.inl ⟨List.forall_mem_cons.mpr ⟨⟨hreads, hp⟩, hall⟩, hmissing⟩)
        · exact Or.inr (Or.inr ⟨q, List.mem_cons_of_mem p hq, hfails⟩)
      · exact Or.inr (Or.inr ⟨p, List.mem_cons_self, hreads, findNumber_of_not_reads hreads⟩)

/-- The word of a number comes from an entry with that value. -/
theorem mem_of_findNumber {text : String} (h : findNumber value es = .ok text) :
    ∃ e, (text, e) ∈ es ∧ e.IsNumber value := by
  rcases findNumber_cases value es with ⟨p, hp, hnumber, hfound⟩ | ⟨-, hmissing⟩ | ⟨p, -, -, e, he⟩
  · obtain rfl : p.1 = text := Except.ok.inj (hfound.symm.trans h)
    exact ⟨p.2, hp, hnumber⟩
  · rw [hmissing] at h
    cases h
  · rw [he] at h
    cases h

end Numbers

/-! ## 4. Languages -/

/-- Menus and word lists that make a sound language: nodes are told apart, words are spelled from
syllables, none of them is the word of a node or claims to be an ingredient, numbers can be read,
every usage has a word, and the words of desire and possession are verbs. -/
structure Sound (t : Taxonomy) (words : List (String × Entry)) : Prop where
  tree : t.Spelled
  spelled : ∀ p ∈ words, ∃ w, Word.read p.1 = .ok w
  apart : ∀ p ∈ words, ∀ q ∈ t.walk, p.1 ≠ q.2
  plain : ∀ p ∈ words, p.2.usage ≠ .ingredient
  readable : ∀ p ∈ words, p.2.usage = .number → ∃ n, p.2.number? = .ok n
  complete : ∀ u : Usage, ∃ p, (build t words).entryForUsage u = .ok p
  verbs : ∀ u p, u = .desire ∨ u = .possession → (build t words).entryForUsage u = .ok p →
    p.2.part = .verb

/-- Menus and word lists in which words are told apart, whether or not every number among them can
be read. -/
structure Clear (t : Taxonomy) (words : List (String × Entry)) : Prop where
  tree : t.Spelled
  spelled : ∀ p ∈ words, ∃ w, Word.read p.1 = .ok w
  apart : ∀ p ∈ words, ∀ q ∈ t.walk, p.1 ≠ q.2
  plain : ∀ p ∈ words, p.2.usage ≠ .ingredient
  complete : ∀ u : Usage, ∃ p, (build t words).entryForUsage u = .ok p
  verbs : ∀ u p, u = .desire ∨ u = .possession → (build t words).entryForUsage u = .ok p →
    p.2.part = .verb

theorem Sound.clear (h : Sound t words) : Clear t words :=
  ⟨h.tree, h.spelled, h.apart, h.plain, h.complete, h.verbs⟩

namespace Clear

variable (h : Clear t words) (g : Grammar)

include h

/-- The word of a leaf is the leaf's. -/
theorem lookup?_leaf {p : Ingredient × String} (hp : p ∈ t.walk) (hleaf : p.1.isLeaf = true) :
    (build t words).lookup? p.2 = some (Entry.ofIngredient p.1.name) :=
  lookup?_of_isLeaf words h.tree hp hleaf

/-- The word of a category is in no list. -/
theorem lookup?_category {p : Ingredient × String} (hp : p ∈ t.walk)
    (hleaf : p.1.isLeaf = false) : (build t words).lookup? p.2 = none := by
  have hnouns : ∀ q ∈ nouns t, q.1 ≠ p.2 := by
    intro q hq heq
    obtain ⟨r, hr, hrleaf, rfl⟩ := mem_nouns.mp hq
    rw [h.tree.word_injective hr hp heq, hleaf] at hrleaf
    cases hrleaf
  rw [lookup?, entries_build, find?_insertAll_of_notMem hnouns,
    find?_insertAll_of_notMem fun q hq => h.apart q hq p hp]
  rfl

/-! ## 5. The words for things, and what they are annotated with -/

/-- A word of the list is annotated with its entry. -/
theorem annotated_of_mem {p : String × Entry} (hp : p ∈ (build t words).entries)
    (hu : p.2.usage ≠ .ingredient) : ∃ w : Tagged, (build t words).annotated p.1 = .ok w ∧
      w.part = some p.2.part ∧ w.entry = some p.2 ∧ w.text = p.1 ∧ w.word.syllables ≠ [] := by
  obtain ⟨w, hw⟩ := h.spelled p (mem_words_of_mem hp hu)
  obtain ⟨htext, hne⟩ := Word.text_of_read hw
  refine ⟨⟨w, some p.2.part, some p.2⟩, ?_, rfl, rfl, htext, hne⟩
  unfold annotated
  rw [hw, lookup?_of_mem hp]
  rfl

omit h in
/-- A word that has an entry is annotated with it. -/
theorem tag_of_lookup? {lex : Lexicon} {w : Word} {e : Entry} (hg : g.lexicon = lex)
    (he : lex.lookup? w.text = some e) : g.tag w = ⟨w, some e.part, some e⟩ := by
  subst hg
  simp only [Grammar.tag, he]

variable {g} (hg : g.lexicon = build t words)

include hg

omit h in
/-- A word of the list is heard as it was said. -/
theorem tag_of_mem {p : String × Entry} (hp : p ∈ (build t words).entries) {w : Tagged}
    (hpart : w.part = some p.2.part) (hentry : w.entry = some p.2) (htext : w.text = p.1) :
    g.tag w.word = w := by
  have hlookup : (build t words).lookup? w.word.text = some p.2 := by
    rw [← lookup?_of_mem hp, ← htext]
    rfl
  rw [tag_of_lookup? g hg hlookup, ← hpart, ← hentry]

/-- **There is a word for every usage**, and it is heard as it was said. -/
theorem exists_usage_word {u : Usage} (hu : u ≠ .ingredient) :
    ∃ w : Tagged, (build t words).wordForUsage u = .ok w ∧ g.tag w.word = w ∧ w.is u = true ∧
      w.word.syllables ≠ [] ∧ (u = .desire ∨ u = .possession → w.part = some .verb) := by
  obtain ⟨p, hp⟩ := h.complete u
  have hverb := fun hv => h.verbs u p hv hp
  obtain ⟨hmem, hpu⟩ := mem_of_entryForUsage hp
  obtain ⟨w, hw, hpart, hentry, htext, hne⟩ := h.annotated_of_mem hmem (hpu ▸ hu)
  refine ⟨w, ?_, tag_of_mem hg hmem hpart hentry htext, ?_, hne, fun hv => ?_⟩
  · unfold wordForUsage
    rw [hp]
    exact hw
  · rw [Tagged.is_iff, Tagged.usage?, hentry, Option.map_some, hpu]
  · rw [hpart, hverb hv]

/-- **The word of a number** is heard as it was said. -/
theorem exists_number_word {n : Nat} {w : Tagged}
    (hn : (build t words).wordForNumber n = .ok w) :
    g.tag w.word = w ∧ w.is .number = true ∧
      w.entry.map Entry.number? = some (.ok (some n)) ∧ w.word.syllables ≠ [] := by
  unfold wordForNumber at hn
  cases hf : findNumber n (build t words).entries with
  | error e =>
    rw [hf] at hn
    cases hn
  | ok text =>
    rw [hf] at hn
    obtain ⟨e, he, hu, m, hm, hvalue⟩ := mem_of_findNumber hf
    obtain ⟨w', hw', hpart, hentry, htext, hne⟩ :=
      h.annotated_of_mem he (by rw [hu]; simp)
    rw [show (build t words).annotated text = .ok w from hn] at hw'
    cases hw'
    refine ⟨tag_of_mem hg he hpart hentry htext, ?_, ?_, hne⟩
    · rw [Tagged.is_iff, Tagged.usage?, hentry, Option.map_some, hu]
    · rw [hentry, Option.map_some, hm, Int.ofNat.inj hvalue]

/-- **The word of a node other than the root** is heard as a noun that refers to the node. -/
theorem exists_noun {p : Ingredient × String} (hp : p ∈ t.walk)
    (hroot : p.1.name ≠ t.root.name) {i : Ingredient} (hi : i.name = p.1.name) :
    ∃ w : Tagged, (build t words).wordForIngredient i = .ok w ∧ w.word.syllables ≠ [] ∧
      (g.tag w.word).isNoun = true ∧
      t.referent (g.tag w.word) = .ok (if p.1.isLeaf then p.1.leaf else p.1) := by
  obtain ⟨w, hread, htext, hne⟩ := h.tree.exists_word hp
  have hfound : t.walk.find? (·.1.name == i.name) = some p := by
    rw [hi]
    exact h.tree.find?_name hp
  refine ⟨⟨w, some .noun, some (Entry.ofIngredient i.name)⟩, ?_, hne, ?_⟩
  · unfold wordForIngredient
    rw [taxonomy_build, Taxonomy.wordFor?_eq, hfound, Option.map_some]
    simp only [hread]
    rfl
  · cases hleaf : p.1.isLeaf with
    | true =>
      have hlookup := h.lookup?_leaf hp hleaf
      rw [← htext] at hlookup
      rw [tag_of_lookup? g hg hlookup]
      refine ⟨rfl, ?_⟩
      rw [hi] at hfound
      simp [Taxonomy.referent, Entry.ofIngredient, Taxonomy.find?, Taxonomy.node?, hfound, hleaf]
    | false =>
      have hlookup := h.lookup?_category hp hleaf
      rw [← htext] at hlookup
      obtain ⟨hlength, hprefix⟩ := h.tree.root_prefix hp hroot htext
      have htag : g.tag w = ⟨w, some .noun, none⟩ := by
        unfold Grammar.tag
        simp only [hg, hlookup, taxonomy_build, hlength, decide_true, Bool.true_and]
        rw [if_pos]
        rw [Word.text, String.toList_ofList]
        exact List.isPrefixOf_iff_prefix.mpr hprefix
      rw [htag]
      refine ⟨rfl, ?_⟩
      have hnode := h.tree.ingredientFor_word hp htext
      rw [hleaf] at hnode
      simp [Taxonomy.referent, Taxonomy.referent.byMorphemes, hnode, Ingredient.same, hroot]

end Clear

/-! ## 6. Checking a language -/

theorem exists_of_isOk {ε α : Type} {x : Except ε α} (h : x.isOk = true) : ∃ a, x = .ok a := by
  cases x with
  | error e => cases h
  | ok a => exact ⟨a, rfl⟩

/-- Whether an entry for a usage is there, and a verb. -/
def hasVerb (lex : Lexicon) (u : Usage) : Bool :=
  match lex.entryForUsage u with
  | .ok p => p.2.part == .verb
  | .error _ => false

theorem hasVerb_iff {lex : Lexicon} {u : Usage} :
    lex.hasVerb u = true ↔ ∃ p, lex.entryForUsage u = .ok p ∧ p.2.part = .verb := by
  unfold hasVerb
  cases lex.entryForUsage u <;> simp

/-- Tests a menu and a word list. -/
def isSound (t : Taxonomy) (words : List (String × Entry)) : Bool :=
  decide (t.walk.map (·.1.name)).Nodup &&
  (t.walk.all fun p => (Syllable.read p.1.morpheme).isOk &&
    decide (p.1.kids.map (·.morpheme)).Nodup) &&
  (words.all fun p => (Word.read p.1).isOk && (t.walk.all fun q => p.1 != q.2) &&
    p.2.usage != .ingredient && (p.2.usage != .number || p.2.number?.isOk)) &&
  (Usage.all.all fun u => ((build t words).entryForUsage u).isOk) &&
  (build t words).hasVerb .desire && (build t words).hasVerb .possession

/-- If the words of desire and possession are verbs, they are wherever they are looked for. -/
theorem verbs_of_hasVerb {lex : Lexicon} (hdesire : lex.hasVerb .desire = true)
    (hpossession : lex.hasVerb .possession = true) (u : Usage) (p : String × Entry)
    (hu : u = .desire ∨ u = .possession) (hp : lex.entryForUsage u = .ok p) : p.2.part = .verb := by
  have hverb : lex.hasVerb u = true := by
    rcases hu with rfl | rfl
    · exact hdesire
    · exact hpossession
  obtain ⟨q, hq, hpart⟩ := hasVerb_iff.mp hverb
  rw [hp] at hq
  cases hq
  exact hpart

/-- **A language that passes the test is sound.** -/
theorem sound_of_isSound (h : isSound t words = true) : Sound t words := by
  simp only [isSound, Bool.and_eq_true, List.all_eq_true, decide_eq_true_eq, bne_iff_ne,
    Bool.or_eq_true] at h
  obtain ⟨⟨⟨⟨⟨hnames, hnodes⟩, hwords⟩, husages⟩, hdesire⟩, hpossession⟩ := h
  refine ⟨⟨hnames, fun p hp => ?_, fun p hp => (hnodes p hp).2⟩, fun p hp => ?_, fun p hp => ?_,
    fun p hp => ?_, fun p hp hu => ?_, fun u => ?_, verbs_of_hasVerb hdesire hpossession⟩
  · obtain ⟨s, hs⟩ := exists_of_isOk (hnodes p hp).1
    exact ⟨s, Syllable.text_of_read hs⟩
  · exact exists_of_isOk (hwords p hp).1.1.1
  · exact (hwords p hp).1.1.2
  · exact (hwords p hp).1.2
  · exact exists_of_isOk ((hwords p hp).2.resolve_left fun hne => hne hu)
  · exact exists_of_isOk (husages u (by cases u <;> decide))

/-- The language of the house is sound. -/
theorem sound_house : Sound Taxonomy.house houseWords := sound_of_isSound (by decide +kernel)

end Lexicon

end DeliTalk
