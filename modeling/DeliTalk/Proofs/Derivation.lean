import DeliTalk.Grammar
import DeliTalk.Proofs.Hearing

/-!
# The sentences of the grammar

The grammar of the language, as trees over annotated words:

    sentence    ->  greeting | affirmation | negation | question conjoined | conjoined
    conjoined   ->  numbered [conjunction conjoined]
    numbered    ->  [number] adverbial
    adverbial   ->  (ever | negation) adverbial | positional
    positional  ->  [noun (before | after)] core
    core        ->  noun verb

A tree keeps its words and what makes each of them fit, so every tree is a derivation.

* `Derivation.Sentence.eq_of_words`: no two derivations have the same words.
* `Derivation.read_words`, `Derivation.outline_words`: what derives, is read.
* `Derivation.exists_numbered`, `Outline.exists_conjoined`: what is read and whose verbs have
  operations, derives.
-/

namespace DeliTalk

/-! ## 1. Derivations -/

namespace Derivation

/-- A noun and a verb of desire or possession. -/
structure Core where
  noun : Tagged
  verb : Tagged
  isNoun : noun.isNoun = true
  isVerb : verb.part = some .verb
  acts : verb.is .desire = true ∨ verb.is .possession = true

/-- A core, with a place in front or without. -/
inductive Positional where
  | bare (core : Core)
  | placed (anchor preposition : Tagged) (isNoun : anchor.isNoun = true)
      (isSide : preposition.is .before = true ∨ preposition.is .after = true) (core : Core)

/-- Adverbs in front. -/
inductive Adverbial where
  | bare (inner : Positional)
  | adverb (word : Tagged) (isAdverb : word.is .ever = true ∨ word.is .negation = true)
      (inner : Adverbial)

/-- A number in front, or none. -/
inductive Numbered where
  | bare (inner : Adverbial)
  | number (word : Tagged) (value : Nat) (isNumber : word.is .number = true)
      (reads : word.entry.map Entry.number? = some (.ok (some value))) (nonzero : value ≠ 0)
      (inner : Adverbial)

/-- Clauses with conjunctions between them. -/
inductive Conjoined where
  | last (clause : Numbered)
  | and (clause : Numbered) (word : Tagged) (isConjunction : word.is .conjunction = true)
      (rest : Conjoined)

/-- A whole sentence. -/
inductive Sentence where
  | single (word : Tagged)
      (h : word.is .greeting = true ∨ word.is .affirmation = true ∨ word.is .negation = true)
  | question (word : Tagged) (isQuestion : word.is .question = true) (rest : Conjoined)
  | statement (clauses : Conjoined)

/-- The words of a core. -/
def Core.words (c : Core) : List Tagged := [c.noun, c.verb]

/-- The words of a core and its place. -/
def Positional.words : Positional → List Tagged
  | bare core => core.words
  | placed anchor preposition _ _ core => anchor :: preposition :: core.words

/-- The words up to the adverbs. -/
def Adverbial.words : Adverbial → List Tagged
  | bare inner => inner.words
  | adverb word _ inner => word :: inner.words

/-- The words of a clause. -/
def Numbered.words : Numbered → List Tagged
  | bare inner => inner.words
  | number word _ _ _ _ inner => word :: inner.words

/-- The words of all clauses. -/
def Conjoined.words : Conjoined → List Tagged
  | last clause => clause.words
  | and clause word _ rest => clause.words ++ word :: rest.words

/-- The first noun of a positional. -/
def Positional.head : Positional → Tagged
  | bare core => core.noun
  | placed anchor _ _ _ _ => anchor

/-- The first noun after the adverbs. -/
def Adverbial.head : Adverbial → Tagged
  | bare inner => inner.head
  | adverb _ _ inner => inner.head

/-- The first noun of a clause. -/
def Numbered.head : Numbered → Tagged
  | bare inner | number _ _ _ _ _ inner => inner.head

/-- The first nouns of all clauses. -/
def Conjoined.heads : Conjoined → List Tagged
  | last clause => [clause.head]
  | and clause _ _ rest => clause.head :: rest.heads

/-- The words of a sentence. -/
def Sentence.words : Sentence → List Tagged
  | single word _ => [word]
  | question word _ rest => word :: rest.words
  | statement clauses => clauses.words

end Derivation

/-! ## 2. Words that can be told apart -/

theorem Tagged.is_iff {w : Tagged} {u : Usage} : w.is u = true ↔ w.usage? = some u := by
  simp [Tagged.is]

/-- A word has one usage at most. -/
theorem Tagged.eq_of_is {w : Tagged} {u v : Usage} (hu : w.is u = true) (hv : w.is v = true) :
    u = v := by
  rw [is_iff] at hu hv
  rw [hu] at hv
  exact Option.some.inj hv

/-- Whether a word serves no purpose but to name an ingredient. -/
def Tagged.Plain (w : Tagged) : Prop := ∀ u, w.is u = true → u = .ingredient

/-- Whether the nouns among some words serve no other purpose. -/
def Plain (ts : List Tagged) : Prop := ∀ w ∈ ts, w.isNoun = true → w.Plain

theorem Plain.mono {ts us : List Tagged} (h : Plain ts) (hsub : us ⊆ ts) : Plain us :=
  fun w hw => h w (hsub hw)

/-- A noun that refers to something serves no other purpose. -/
theorem Taxonomy.plain_of_referent {t : Taxonomy} {w : Tagged} {i : Ingredient}
    (h : t.referent w = .ok i) : w.Plain := by
  intro u hu
  rw [Tagged.is_iff] at hu
  unfold referent at h
  unfold Tagged.usage? at hu
  cases he : w.entry with
  | none =>
    rw [he] at hu
    cases hu
  | some entry =>
    rw [he] at h hu
    simp only [Option.map_some, Option.some.injEq] at hu
    by_cases hi : entry.usage = .ingredient
    · rw [← hu, hi]
    · simp [hi] at h

namespace Derivation

/-! ## 3. No two derivations have the same words -/

theorem Core.eq_of_words {c d : Core} {r s : List Tagged} (h : c.words ++ r = d.words ++ s) :
    c = d ∧ r = s := by
  obtain ⟨noun, verb, _, _, _⟩ := c
  obtain ⟨noun', verb', _, _, _⟩ := d
  simp only [words, List.cons_append, List.nil_append, List.cons.injEq] at h
  obtain ⟨rfl, rfl, rfl⟩ := h
  exact ⟨rfl, rfl⟩

/-- The verb of a core is no preposition. -/
theorem Core.verb_ne {c : Core} {w : Tagged} (h : w.is .before = true ∨ w.is .after = true) :
    c.verb ≠ w := by
  rintro rfl
  rcases c.acts with ha | ha <;> rcases h with h | h <;> cases Tagged.eq_of_is ha h

theorem Positional.eq_of_words {p q : Positional} {r s : List Tagged}
    (h : p.words ++ r = q.words ++ s) : p = q ∧ r = s := by
  cases p with
  | bare c =>
    cases q with
    | bare d =>
      obtain ⟨rfl, rfl⟩ := Core.eq_of_words h
      exact ⟨rfl, rfl⟩
    | placed anchor preposition hn hs d =>
      simp only [words, Core.words, List.cons_append, List.cons.injEq] at h
      exact absurd h.2.1 (Core.verb_ne hs)
  | placed anchor preposition hn hs c =>
    cases q with
    | bare d =>
      simp only [words, Core.words, List.cons_append, List.cons.injEq] at h
      exact absurd h.2.1.symm (Core.verb_ne hs)
    | placed anchor' preposition' _ _ d =>
      simp only [words, List.cons_append, List.cons.injEq] at h
      obtain ⟨rfl, rfl, h⟩ := h
      obtain ⟨rfl, rfl⟩ := Core.eq_of_words h
      exact ⟨rfl, rfl⟩

/-- A positional starts with its first noun. -/
theorem Positional.words_eq_cons (p : Positional) : ∃ rest, p.words = p.head :: rest := by
  cases p <;> exact ⟨_, rfl⟩

theorem Positional.head_isNoun (p : Positional) : p.head.isNoun = true := by
  cases p with
  | bare c => exact c.isNoun
  | placed _ _ hn _ _ => exact hn

/-- A noun that serves no other purpose is no adverb. -/
theorem Positional.words_ne_cons {p : Positional} (hp : p.head.Plain) {w : Tagged}
    (hw : w.is .ever = true ∨ w.is .negation = true) {r s : List Tagged} :
    p.words ++ r ≠ w :: s := by
  obtain ⟨rest, hrest⟩ := p.words_eq_cons
  rw [hrest]
  intro h
  rw [List.cons_append, List.cons.injEq] at h
  obtain ⟨rfl, -⟩ := h
  rcases hw with hw | hw <;> cases hp _ hw

theorem Adverbial.eq_of_words {a b : Adverbial} {r s : List Tagged} (ha : a.head.Plain)
    (hb : b.head.Plain) (h : a.words ++ r = b.words ++ s) : a = b ∧ r = s := by
  induction a generalizing b with
  | bare p =>
    cases b with
    | bare q =>
      obtain ⟨rfl, rfl⟩ := Positional.eq_of_words h
      exact ⟨rfl, rfl⟩
    | adverb w hw b => exact absurd h (Positional.words_ne_cons ha hw)
  | adverb w hw a ih =>
    cases b with
    | bare q => exact absurd h.symm (Positional.words_ne_cons hb hw)
    | adverb w' _ b =>
      simp only [words, List.cons_append, List.cons.injEq] at h
      obtain ⟨rfl, h⟩ := h
      obtain ⟨rfl, rfl⟩ := ih ha (show b.head.Plain from hb) h
      exact ⟨rfl, rfl⟩

/-- What the first word of an adverbial can be used for. -/
theorem Adverbial.usage_of_head {a : Adverbial} (ha : a.head.Plain) {w : Tagged}
    {r s : List Tagged} (h : a.words ++ r = w :: s) {u : Usage} (hu : w.is u = true) :
    u = .ingredient ∨ u = .ever ∨ u = .negation := by
  cases a with
  | bare p =>
    obtain ⟨rest, hrest⟩ := p.words_eq_cons
    rw [words, hrest, List.cons_append, List.cons.injEq] at h
    obtain ⟨rfl, -⟩ := h
    exact Or.inl (ha u hu)
  | adverb v hv a =>
    rw [words, List.cons_append, List.cons.injEq] at h
    obtain ⟨rfl, -⟩ := h
    rcases hv with hv | hv
    · exact Or.inr (Or.inl (Tagged.eq_of_is hu hv))
    · exact Or.inr (Or.inr (Tagged.eq_of_is hu hv))

/-- An adverbial does not start with a number. -/
theorem Adverbial.words_ne_number {a : Adverbial} (ha : a.head.Plain) {w : Tagged}
    (hw : w.is .number = true) {r s : List Tagged} : a.words ++ r ≠ w :: s := by
  intro h
  rcases usage_of_head ha h hw with h | h | h <;> cases h

theorem Numbered.eq_of_words {n m : Numbered} {r s : List Tagged} (hn : n.head.Plain)
    (hm : m.head.Plain) (h : n.words ++ r = m.words ++ s) : n = m ∧ r = s := by
  cases n with
  | bare a =>
    cases m with
    | bare b =>
      obtain ⟨rfl, rfl⟩ := Adverbial.eq_of_words hn hm h
      exact ⟨rfl, rfl⟩
    | number w value hw _ _ b => exact absurd h (Adverbial.words_ne_number hn hw)
  | number w value hw hv h0 a =>
    cases m with
    | bare b => exact absurd h.symm (Adverbial.words_ne_number hm hw)
    | number w' value' _ hv' _ b =>
      simp only [words, List.cons_append, List.cons.injEq] at h
      obtain ⟨rfl, h⟩ := h
      rw [hv] at hv'
      cases hv'
      obtain ⟨rfl, rfl⟩ := Adverbial.eq_of_words hn hm h
      exact ⟨rfl, rfl⟩

/-- What the first word of a clause can be used for. -/
theorem Numbered.usage_of_head {n : Numbered} (hn : n.head.Plain) {w : Tagged}
    {r s : List Tagged} (h : n.words ++ r = w :: s) {u : Usage} (hu : w.is u = true) :
    u = .number ∨ u = .ingredient ∨ u = .ever ∨ u = .negation := by
  cases n with
  | bare a => exact Or.inr (Adverbial.usage_of_head hn h hu)
  | number w' value hw _ _ a =>
    simp only [words, List.cons_append, List.cons.injEq] at h
    obtain ⟨rfl, -⟩ := h
    exact Or.inl (Tagged.eq_of_is hu hw)

theorem Conjoined.eq_of_words {c d : Conjoined} (hc : ∀ w ∈ c.heads, w.Plain)
    (hd : ∀ w ∈ d.heads, w.Plain) (h : c.words = d.words) : c = d := by
  induction c generalizing d with
  | last n =>
    cases d with
    | last m =>
      obtain ⟨rfl, -⟩ := Numbered.eq_of_words (r := []) (s := []) (hc _ List.mem_cons_self)
        (hd _ List.mem_cons_self) (by simpa [words] using h)
      rfl
    | and m w hw d =>
      have h' : n.words ++ [] = m.words ++ w :: d.words := by rw [List.append_nil]; exact h
      cases (Numbered.eq_of_words (hc _ List.mem_cons_self) (hd _ List.mem_cons_self) h').2
  | and n w hw c ih =>
    cases d with
    | last m =>
      have h' : n.words ++ w :: c.words = m.words ++ [] := by rw [List.append_nil]; exact h
      cases (Numbered.eq_of_words (hc _ List.mem_cons_self) (hd _ List.mem_cons_self) h').2
    | and m w' _ d =>
      obtain ⟨rfl, hrest⟩ :=
        Numbered.eq_of_words (hc _ List.mem_cons_self) (hd _ List.mem_cons_self) h
      rw [List.cons.injEq] at hrest
      obtain ⟨rfl, hrest⟩ := hrest
      rw [ih (fun v hv => hc v (List.mem_cons_of_mem _ hv))
        (fun v hv => hd v (List.mem_cons_of_mem _ hv)) hrest]

/-- Several clauses start with a clause. -/
theorem Conjoined.words_eq_append (c : Conjoined) :
    ∃ (n : Numbered) (rest : List Tagged), c.words = n.words ++ rest ∧ n.head ∈ c.heads := by
  cases c with
  | last n => exact ⟨n, [], by simp [words], List.mem_cons_self⟩
  | and n w _ c => exact ⟨n, w :: c.words, rfl, List.mem_cons_self⟩

/-- The first nouns are nouns among the words. -/
theorem Adverbial.head_mem : ∀ a : Adverbial, a.head ∈ a.words ∧ a.head.isNoun = true
  | .bare p => by
    obtain ⟨rest, h⟩ := p.words_eq_cons
    rw [words, h]
    exact ⟨List.mem_cons_self, p.head_isNoun⟩
  | .adverb w _ a => ⟨List.mem_cons_of_mem w a.head_mem.1, a.head_mem.2⟩

theorem Numbered.head_mem (n : Numbered) : n.head ∈ n.words ∧ n.head.isNoun = true := by
  cases n with
  | bare a => exact a.head_mem
  | number w _ _ _ _ a => exact ⟨List.mem_cons_of_mem w a.head_mem.1, a.head_mem.2⟩

/-- Where nouns serve no other purpose, the first nouns do not. -/
theorem Conjoined.plain_heads : ∀ {c : Conjoined}, DeliTalk.Plain c.words →
    ∀ w ∈ c.heads, w.Plain
  | .last n, h, w, hw => by
    rw [List.mem_singleton.mp hw]
    exact h _ n.head_mem.1 n.head_mem.2
  | .and n v _ c, h, w, hw => by
    rcases List.mem_cons.mp hw with rfl | hw
    · exact h _ (List.mem_append_left _ n.head_mem.1) n.head_mem.2
    · refine Conjoined.plain_heads (c := c) (h.mono fun u hu => ?_) w hw
      exact List.mem_append_right _ (List.mem_cons_of_mem v hu)

/-- A clause has at least two words. -/
theorem Numbered.two_le_words : ∀ n : Numbered, 2 ≤ n.words.length
  | .bare a | .number _ _ _ _ _ a => by
    induction a with
    | bare p => cases p <;> simp [words, Adverbial.words, Positional.words, Core.words]
    | adverb w _ a ih =>
      simp only [words, Adverbial.words, List.length_cons] at ih ⊢
      omega

/-- Several clauses have at least two words. -/
theorem Conjoined.two_le_words (c : Conjoined) : 2 ≤ c.words.length := by
  obtain ⟨n, rest, h, -⟩ := c.words_eq_append
  have := n.two_le_words
  rw [h, List.length_append]
  omega

/-- Several clauses do not start with a question word. -/
theorem Conjoined.words_ne_question {c : Conjoined} (hc : ∀ w ∈ c.heads, w.Plain) {w : Tagged}
    (hw : w.is .question = true) (s : List Tagged) : c.words ≠ w :: s := by
  intro h
  obtain ⟨n, rest, hn, hhead⟩ := c.words_eq_append
  rw [hn] at h
  rcases Numbered.usage_of_head (hc _ hhead) h hw with h | h | h | h <;> cases h

/-- A sentence has words. -/
theorem Sentence.words_ne_nil (d : Sentence) : d.words ≠ [] := by
  cases d with
  | single w _ | question w _ c => simp [words]
  | statement c =>
    intro h
    have := c.two_le_words
    simp [show c.words = [] from h] at this

/-- **No two derivations have the same words.** -/
theorem Sentence.eq_of_words {d e : Sentence} (hd : DeliTalk.Plain d.words)
    (h : d.words = e.words) : d = e := by
  have he : DeliTalk.Plain e.words := h ▸ hd
  cases d with
  | single w hw =>
    cases e with
    | single v _ =>
      cases (List.cons.inj h).1
      rfl
    | question v _ f =>
      have := f.two_le_words
      simp [← (List.cons.inj h).2] at this
    | statement f =>
      have := f.two_le_words
      simp [show f.words = [w] from h.symm] at this
  | question w hw c =>
    cases e with
    | single v _ =>
      have := c.two_le_words
      simp [(List.cons.inj h).2] at this
    | question v _ f =>
      obtain ⟨rfl, hrest⟩ := List.cons.inj h
      have hc := Conjoined.plain_heads (hd.mono (List.subset_cons_self w c.words))
      have hf := Conjoined.plain_heads (he.mono (List.subset_cons_self w f.words))
      rw [Conjoined.eq_of_words hc hf hrest]
    | statement f =>
      exact absurd h.symm (Conjoined.words_ne_question (Conjoined.plain_heads he) hw _)
  | statement c =>
    cases e with
    | single v _ =>
      have := c.two_le_words
      simp [show c.words = [v] from h] at this
    | question v hv f =>
      exact absurd h (Conjoined.words_ne_question (Conjoined.plain_heads hd) hv _)
    | statement f =>
      rw [Conjoined.eq_of_words (Conjoined.plain_heads hd) (Conjoined.plain_heads he) h]

end Derivation

/-! ## 4. What derives, is read -/

/-- Whether the verb of a clause has an operation. -/
def Clause.Acts (c : Clause) : Prop := c.verb.is .desire = true ∨ c.verb.is .possession = true

theorem Outline.readMore_nil : readMore [] = ([], .rest []) := by
  rw [readMore]

/-- A conjunction and a clause. -/
theorem Outline.readMore_clause {w : Tagged} {ts left : List Tagged} {c : Clause}
    (hw : w.is .conjunction = true) (h : Clause.read ts = .clause c left) :
    readMore (w :: ts) = (c :: (readMore left).1, (readMore left).2) := by
  rw [readMore, if_pos hw]
  split <;> simp_all

namespace Derivation

/-- The core of a positional. -/
def Positional.core : Positional → Core
  | bare core | placed _ _ _ _ core => core

/-- The place in front of the core. -/
def Positional.placement : Positional → Option (Tagged × Side)
  | bare _ => none
  | placed anchor preposition _ _ _ => (Side.of? preposition).map fun side => (anchor, side)

/-- What the adverbs are around. -/
def Adverbial.positional : Adverbial → Positional
  | bare inner => inner
  | adverb _ _ inner => inner.positional

/-- The adverbs. -/
def Adverbial.adverbs : Adverbial → List Adverb
  | bare _ => []
  | adverb word _ inner => (Adverb.of? word).toList ++ inner.adverbs

/-- What the number is around. -/
def Numbered.adverbial : Numbered → Adverbial
  | bare inner | number _ _ _ _ _ inner => inner

/-- The number. -/
def Numbered.count : Numbered → Option Nat
  | bare _ => none
  | number _ value _ _ _ _ => some value

/-- The clause a tree is of. -/
def Numbered.clause (n : Numbered) : Clause :=
  let p := n.adverbial.positional
  ⟨n.count, n.adverbial.adverbs, p.placement, p.core.noun, p.core.verb⟩

/-- The clause of the first of several. -/
def Conjoined.first : Conjoined → Clause
  | last n | and n _ _ _ => n.clause

/-- The clauses of all others. -/
def Conjoined.more : Conjoined → List Clause
  | last _ => []
  | and _ _ _ c => c.first :: c.more

/-- The verbs of all clauses have operations. -/
theorem Conjoined.acts : ∀ (d : Conjoined), ∀ c ∈ d.first :: d.more, c.Acts
  | .last n, c, hc => by
    rw [List.mem_singleton.mp hc]
    exact n.adverbial.positional.core.acts
  | .and n _ _ d, c, hc => by
    rcases List.mem_cons.mp hc with rfl | hc
    · exact n.adverbial.positional.core.acts
    · exact d.acts c hc

theorem readCore_words (c : Core) (rest : List Tagged) :
    Clause.readCore (c.words ++ rest) = some ((c.noun, c.verb), rest) := by
  simp [Clause.readCore, Core.words, c.isNoun, c.isVerb]

/-- A preposition names a side. -/
theorem exists_side {w : Tagged} (h : w.is .before = true ∨ w.is .after = true) :
    ∃ side, Side.of? w = some side := by
  rcases h with h | h <;> rw [Tagged.is_iff] at h
  · exact ⟨.before, by simp [Side.of?, h]⟩
  · exact ⟨.after, by simp [Side.of?, h]⟩

/-- A verb names no side. -/
theorem Core.side_eq_none (c : Core) : Side.of? c.verb = none := by
  rcases c.acts with h | h <;> rw [Tagged.is_iff] at h <;> simp [Side.of?, h]

theorem readPlacement_words (p : Positional) (rest : List Tagged) :
    Clause.readPlacement (p.words ++ rest) =
      p.placement.map fun x => (x, p.core.words ++ rest) := by
  cases p with
  | bare c => simp [Clause.readPlacement, Positional.words, Core.words, Positional.placement,
      c.side_eq_none]
  | placed anchor preposition hn hs c =>
    obtain ⟨side, h⟩ := exists_side hs
    simp [Clause.readPlacement, Positional.words, Positional.placement, Positional.core, hn, h]

/-- A noun with no other purpose is no adverb. -/
theorem adverb_eq_none {w : Tagged} (h : w.Plain) :
    Adverb.of? w = none := by
  unfold Adverb.of?
  cases hu : w.usage? with
  | none => rfl
  | some u =>
    rw [h u (Tagged.is_iff.mpr hu)]

/-- An adverb is one of the two. -/
theorem exists_adverb {w : Tagged} (h : w.is .ever = true ∨ w.is .negation = true) :
    ∃ a, Adverb.of? w = some a := by
  rcases h with h | h <;> rw [Tagged.is_iff] at h
  · exact ⟨.ever, by simp [Adverb.of?, h]⟩
  · exact ⟨.negation, by simp [Adverb.of?, h]⟩

theorem readAdverbs_words : ∀ (a : Adverbial) (_ : a.head.Plain) (rest : List Tagged),
    Clause.readAdverbs (a.words ++ rest) = (a.adverbs, a.positional.words ++ rest)
  | .bare p, h, rest => by
    obtain ⟨more, hmore⟩ := p.words_eq_cons
    simp only [Adverbial.words, Adverbial.adverbs, Adverbial.positional]
    rw [hmore]
    simp [Clause.readAdverbs, adverb_eq_none (show p.head.Plain from h)]
  | .adverb w hw a, h, rest => by
    obtain ⟨x, hx⟩ := exists_adverb hw
    simp [Clause.readAdverbs, Adverbial.words, Adverbial.adverbs, Adverbial.positional, hx,
      readAdverbs_words a h rest]

/-- A tree without its number. -/
theorem readBody_words {a : Adverbial} (h : a.head.Plain) (count : Option Nat)
    (rest : List Tagged) :
    Clause.readBody count (a.words ++ rest) =
      .clause ⟨count, a.adverbs, a.positional.placement, a.positional.core.noun,
        a.positional.core.verb⟩ rest := by
  unfold Clause.readBody
  rw [readAdverbs_words a h rest]
  simp only [readPlacement_words]
  cases hp : a.positional.placement with
  | none =>
    have hbare : a.positional.words = a.positional.core.words := by
      cases hq : a.positional with
      | bare c => rfl
      | placed anchor preposition _ hs c =>
        obtain ⟨side, h⟩ := exists_side hs
        rw [hq, Positional.placement, h] at hp
        cases hp
    simp [hbare, readCore_words]
  | some p => simp [readCore_words]

/-- **A clause that derives, is read.** -/
theorem read_words {n : Numbered} (h : n.head.Plain) (rest : List Tagged) :
    Clause.read (n.words ++ rest) = .clause n.clause rest := by
  cases n with
  | bare a =>
    obtain ⟨w, more, hw⟩ := List.exists_cons_of_ne_nil (List.ne_nil_of_mem a.head_mem.1)
    have hnumber : w.is .number = false := by
      by_contra hc
      exact Adverbial.words_ne_number h (by simpa using hc) (r := []) (s := more) (by simp [hw])
    have hbody := readBody_words h none rest
    simp only [Numbered.words]
    rw [hw] at hbody ⊢
    simpa [Clause.read, hnumber, Numbered.clause, Numbered.count, Numbered.adverbial] using hbody
  | number w value hw hv h0 a =>
    obtain ⟨k, rfl⟩ := Nat.exists_eq_succ_of_ne_zero h0
    simpa [Clause.read, Numbered.words, hw, hv, Numbered.clause, Numbered.count,
      Numbered.adverbial] using
      readBody_words h (some (k + 1)) rest

theorem readMore_words : ∀ (c : Conjoined) (_ : ∀ w ∈ c.heads, w.Plain) (w : Tagged)
    (_ : w.is .conjunction = true),
    Outline.readMore (w :: c.words) = (c.first :: c.more, .rest [])
  | .last n, h, w, hw => by
    have hread := read_words (h _ List.mem_cons_self) []
    rw [List.append_nil] at hread
    rw [Conjoined.words, Outline.readMore_clause hw hread, Outline.readMore_nil]
    rfl
  | .and n v hv c, h, w, hw => by
    have hread := read_words (h _ List.mem_cons_self) (v :: c.words)
    have hmore := readMore_words c (fun u hu => h u (List.mem_cons_of_mem _ hu)) v hv
    rw [Conjoined.words, Outline.readMore_clause hw hread, hmore]
    rfl

/-- **Clauses that derive, are read to the end.** -/
theorem outline_words {c : Conjoined} (h : ∀ w ∈ c.heads, w.Plain) :
    Outline.read c.words = .outline ⟨c.first, c.more, .rest []⟩ := by
  unfold Outline.read
  cases c with
  | last n =>
    have hread := read_words (h _ List.mem_cons_self) []
    rw [List.append_nil] at hread
    rw [Conjoined.words, hread]
    simp only [Outline.readMore_nil]
    rfl
  | and n w hw c =>
    have hread := read_words (h _ List.mem_cons_self) (w :: c.words)
    have hmore := readMore_words c (fun u hu => h u (List.mem_cons_of_mem _ hu)) w hw
    rw [Conjoined.words, hread]
    simp only [hmore]
    rfl

end Derivation

/-! ## 5. What is read and has a meaning, derives -/

namespace Clause

theorem readAdverbs_eq : ∀ ts : List Tagged, ∃ ws : List Tagged,
    (∀ w ∈ ws, w.is .ever = true ∨ w.is .negation = true) ∧ ts = ws ++ (readAdverbs ts).2
  | [] => ⟨[], by simp, rfl⟩
  | t :: rest => by
    unfold readAdverbs
    cases h : Adverb.of? t with
    | none => exact ⟨[], by simp, rfl⟩
    | some a =>
      obtain ⟨ws, hws, hrest⟩ := readAdverbs_eq rest
      have ht : t.is .ever = true ∨ t.is .negation = true := by
        simp only [Tagged.is_iff]
        unfold Adverb.of? at h
        split at h <;> simp_all
      refine ⟨t :: ws, ?_, congrArg (t :: ·) hrest⟩
      simpa using ⟨ht, hws⟩

theorem eq_of_readCore {ts rest : List Tagged} {noun verb : Tagged}
    (h : readCore ts = some ((noun, verb), rest)) :
    ts = noun :: verb :: rest ∧ noun.isNoun = true ∧ verb.part = some .verb := by
  unfold readCore at h
  split at h
  · split at h
    · rename_i hc
      cases h
      simpa using hc
    · cases h
  · cases h

theorem eq_of_readPlacement {ts rest : List Tagged} {anchor : Tagged} {side : Side}
    (h : readPlacement ts = some ((anchor, side), rest)) :
    ∃ preposition, ts = anchor :: preposition :: rest ∧ anchor.isNoun = true ∧
      (preposition.is .before = true ∨ preposition.is .after = true) := by
  unfold readPlacement at h
  split at h
  · rename_i preposition us
    split at h
    · rename_i hn
      obtain ⟨s, hs, heq⟩ := Option.map_eq_some_iff.mp h
      cases heq
      refine ⟨preposition, rfl, hn, ?_⟩
      simp only [Tagged.is_iff]
      unfold Side.of? at hs
      split at hs <;> simp_all
    · cases h
  · cases h

/-- The words of a clause without its number. -/
theorem words_of_readBody {count : Option Nat} {ts rest : List Tagged} {c : Clause}
    (h : readBody count ts = .clause c rest) : ∃ ws us : List Tagged,
    (∀ w ∈ ws, w.is .ever = true ∨ w.is .negation = true) ∧
    ts = ws ++ us ++ c.noun :: c.verb :: rest ∧ c.noun.isNoun = true ∧
    c.verb.part = some .verb ∧
    match c.placement with
    | none => us = []
    | some (anchor, _) => ∃ preposition, us = [anchor, preposition] ∧ anchor.isNoun = true ∧
        (preposition.is .before = true ∨ preposition.is .after = true) := by
  obtain ⟨ws, hws, hts⟩ := readAdverbs_eq ts
  unfold readBody at h
  generalize readAdverbs ts = r at h hts
  obtain ⟨adverbs, vs⟩ := r
  simp only at h hts
  cases hp : readPlacement vs with
  | none =>
    simp only [hp] at h
    cases hc : readCore vs with
    | none => simp [hc] at h
    | some x =>
      obtain ⟨⟨noun, verb⟩, left⟩ := x
      obtain ⟨rfl, hn, hv⟩ := eq_of_readCore hc
      simp only [hc, ClauseReading.clause.injEq] at h
      obtain ⟨rfl, rfl⟩ := h
      exact ⟨ws, [], hws, by simpa using hts, hn, hv, rfl⟩
  | some p =>
    obtain ⟨⟨anchor, side⟩, vs'⟩ := p
    obtain ⟨preposition, rfl, ha, hs⟩ := eq_of_readPlacement hp
    simp only [hp] at h
    cases hc : readCore vs' with
    | none => simp [hc] at h
    | some x =>
      obtain ⟨⟨noun, verb⟩, left⟩ := x
      obtain ⟨rfl, hn, hv⟩ := eq_of_readCore hc
      simp only [hc, ClauseReading.clause.injEq] at h
      obtain ⟨rfl, rfl⟩ := h
      exact ⟨ws, [anchor, preposition], hws, by simpa using hts, hn, hv, preposition, rfl, ha, hs⟩

/-- A clause is its number, if it has one, and the rest. -/
theorem eq_of_read {ts rest : List Tagged} {c : Clause} (h : read ts = .clause c rest) :
    readBody none ts = .clause c rest ∨
      ∃ w us k, ts = w :: us ∧ w.is .number = true ∧
        w.entry.map Entry.number? = some (.ok (some (k + 1))) ∧
        readBody (some (k + 1)) us = .clause c rest := by
  unfold read at h
  split at h
  · cases h
  · rename_i w us
    split at h
    · rename_i hw
      split at h
      · cases h
      · rename_i k hk
        exact Or.inr ⟨w, us, k, rfl, hw, hk, h⟩
      · cases h
    · exact Or.inl h

/-- The nouns of a clause are among its words. -/
theorem nouns_of_read {ts rest : List Tagged} {c : Clause} (h : read ts = .clause c rest) :
    (c.noun ∈ ts ∧ c.noun.isNoun = true) ∧
      (∀ anchor side, c.placement = some (anchor, side) → anchor ∈ ts ∧ anchor.isNoun = true) ∧
      rest ⊆ ts := by
  have key : ∀ {count us}, readBody count us = .clause c rest → us ⊆ ts →
      (c.noun ∈ ts ∧ c.noun.isNoun = true) ∧
        (∀ anchor side, c.placement = some (anchor, side) → anchor ∈ ts ∧ anchor.isNoun = true) ∧
        rest ⊆ ts := by
    intro count us hb hsub
    obtain ⟨ws, vs, -, rfl, hn, -, hplace⟩ := words_of_readBody hb
    refine ⟨⟨hsub (by simp), hn⟩, ?_, fun w hw => hsub (by simp [hw])⟩
    intro anchor side hp
    rw [hp] at hplace
    obtain ⟨preposition, rfl, ha, -⟩ := hplace
    exact ⟨hsub (by simp), ha⟩
  rcases eq_of_read h with hb | ⟨w, us, k, rfl, -, -, hb⟩
  · exact key hb fun w hw => hw
  · exact key hb (List.subset_cons_self w us)

end Clause

namespace Derivation

/-- Adverbs can be put in front of anything. -/
theorem exists_adverbial (p : Positional) : ∀ ws : List Tagged,
    (∀ w ∈ ws, w.is .ever = true ∨ w.is .negation = true) →
    ∃ a : Adverbial, a.words = ws ++ p.words
  | [], _ => ⟨.bare p, rfl⟩
  | w :: ws, h => by
    obtain ⟨a, ha⟩ := exists_adverbial p ws fun v hv => h v (List.mem_cons_of_mem w hv)
    exact ⟨.adverb w (h w List.mem_cons_self) a, congrArg (w :: ·) ha⟩

/-- What is read without a number derives. -/
theorem exists_adverbial_of_readBody {count : Option Nat} {ts rest : List Tagged} {c : Clause}
    (h : Clause.readBody count ts = .clause c rest) (ha : c.Acts) :
    ∃ a : Adverbial, ts = a.words ++ rest := by
  obtain ⟨ws, us, hws, rfl, hn, hv, hplace⟩ := Clause.words_of_readBody h
  let core : Core := ⟨c.noun, c.verb, hn, hv, ha⟩
  cases hp : c.placement with
  | none =>
    rw [hp] at hplace
    obtain ⟨a, ha⟩ := exists_adverbial (.bare core) ws hws
    refine ⟨a, ?_⟩
    rw [ha, hplace]
    simp [Positional.words, Core.words, core]
  | some place =>
    obtain ⟨anchor, side⟩ := place
    rw [hp] at hplace
    obtain ⟨preposition, rfl, hanchor, hs⟩ := hplace
    obtain ⟨a, ha⟩ := exists_adverbial (.placed anchor preposition hanchor hs core) ws hws
    refine ⟨a, ?_⟩
    rw [ha]
    simp [Positional.words, Core.words, core]

/-- **A clause that is read and whose verb has an operation, derives.** -/
theorem exists_numbered {ts rest : List Tagged} {c : Clause}
    (h : Clause.read ts = .clause c rest) (ha : c.Acts) :
    ∃ n : Numbered, ts = n.words ++ rest := by
  rcases Clause.eq_of_read h with hb | ⟨w, us, k, rfl, hw, hk, hb⟩
  · obtain ⟨a, rfl⟩ := exists_adverbial_of_readBody hb ha
    exact ⟨.bare a, rfl⟩
  · obtain ⟨a, rfl⟩ := exists_adverbial_of_readBody hb ha
    exact ⟨.number w (k + 1) hw hk (Nat.succ_ne_zero k) a, rfl⟩

end Derivation

namespace Outline

/-- How reading on can go: to the end of the chain, to a number that cannot be read, or to a
conjunction and a clause. -/
theorem readMore_cases (ts : List Tagged) :
    readMore ts = ([], .rest ts) ∨
      (∃ w us cause, ts = w :: us ∧ Clause.read us = .unreadable cause ∧
        readMore ts = ([], .unreadable cause)) ∨
      ∃ w us c left, ts = w :: us ∧ w.is .conjunction = true ∧
        Clause.read us = .clause c left ∧
        readMore ts = (c :: (readMore left).1, (readMore left).2) := by
  cases ts with
  | nil => exact Or.inl readMore_nil
  | cons w us =>
    by_cases hw : w.is .conjunction = true
    · cases hc : Clause.read us with
      | clause c left =>
        exact Or.inr (Or.inr ⟨w, us, c, left, rfl, hw, hc, readMore_clause hw hc⟩)
      | none =>
        refine Or.inl ?_
        rw [readMore, if_pos hw]
        split <;> simp_all
      | unreadable cause =>
        refine Or.inr (Or.inl ⟨w, us, cause, rfl, hc, ?_⟩)
        rw [readMore, if_pos hw]
        split <;> simp_all
    · exact Or.inl (by rw [readMore, if_neg hw])

/-- The clauses joined to a clause that derives, derive with it. -/
theorem exists_conjoined : ∀ (more : List Clause) (n : Derivation.Numbered) (ts : List Tagged),
    readMore ts = (more, .rest []) → (∀ c ∈ more, c.Acts) →
    ∃ d : Derivation.Conjoined, d.words = n.words ++ ts
  | [], n, ts, h, _ => by
    rcases readMore_cases ts with hm | ⟨_, _, _, -, -, hm⟩ | ⟨_, _, _, _, -, -, -, hm⟩ <;>
      rw [h] at hm <;> cases hm
    exact ⟨.last n, by simp [Derivation.Conjoined.words]⟩
  | c :: more, n, ts, h, hacts => by
    rcases readMore_cases ts with hm | ⟨_, _, _, -, -, hm⟩ | ⟨w, us, d, left, rfl, hw, hr, hm⟩ <;>
      rw [h] at hm <;> simp only [Prod.mk.injEq, List.cons.injEq, reduceCtorEq, false_and] at hm
    obtain ⟨⟨rfl, hmore⟩, hend⟩ := hm
    obtain ⟨n', rfl⟩ := Derivation.exists_numbered hr (hacts c List.mem_cons_self)
    obtain ⟨e, he⟩ := exists_conjoined more n' left (by rw [hmore, hend])
      fun d hd => hacts d (List.mem_cons_of_mem c hd)
    exact ⟨.and n w hw e, by rw [Derivation.Conjoined.words, he]⟩

end Outline

end DeliTalk
