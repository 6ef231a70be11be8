import DeliTalk.Operation.Speech
import DeliTalk.Proofs.Acceptance
import DeliTalk.Proofs.Reals
import DeliTalk.Proofs.SoundLanguage

/-!
# What is said is what is heard

In a sound language an operation that can be said is said in words that derive, and a listener
all of whose rolls succeed hears the operation again: chains lean to the right, and removing
everything is heard as removing for good.

* `Operation.Sayable`: the operations that can be said.
* `Operation.heard`, `Operation.rolls`: what they are heard as, and the rolls it takes.
* `Operation.Joined.spoken`: their words, with the derivation and the gists.
* `Grammar.parse_encode`: the round trip.
-/

namespace DeliTalk

/-- The usage of the preposition for a side. -/
def Side.usage : Side → Usage
  | before => .before
  | after => .after

namespace Operation

/-! ## 1. What can be said, and what is heard -/

/-- Two operations in a row, where a chain leans to the right. -/
def andThen : Operation → Operation → Operation
  | compound x y, z => compound x (andThen y z)
  | x, z => compound x z

/-- What an operation is heard as if nothing is missed. -/
def heard : Operation → Operation
  | removeAll i => persist (remove i)
  | repeated n x => repeated n (heard x)
  | compound x y => andThen (heard x) (heard y)
  | persist x => persist (heard x)
  | x => x

/-- The skills that are tried when an operation is heard. -/
def rolls : Operation → List Skill
  | add _ r => if r.position = .top then [] else [.adposition]
  | remove _ => [.adverbs]
  | removeAll _ => [.adverbs, .adverbs]
  | repeated _ x => rolls x ++ [.numbers]
  | compound x y => rolls x ++ rolls y ++ [.conjunction]
  | persist x => rolls x ++ [.adverbs]
  | _ => []

/-- Whether an ingredient has the name of a node other than the root. -/
def Named (t : Taxonomy) (i : Ingredient) : Prop :=
  ∃ p ∈ t.walk, p.1.name ≠ t.root.name ∧ i.name = p.1.name

/-- Edits of one ingredient, once or for good. -/
inductive Simple (t : Taxonomy) : Operation → Prop
  | add {i} (h : Named t i) : Simple t (add i .top)
  | addBefore {i a} (h : Named t i) (ha : Named t a) : Simple t (Operation.add i (.before a))
  | addAfter {i a} (h : Named t i) (ha : Named t a) : Simple t (Operation.add i (.after a))
  | remove {i} (h : Named t i) : Simple t (remove i)
  | removeAll {i} (h : Named t i) : Simple t (removeAll i)
  | ensure {i} (h : Named t i) : Simple t (ensure i)
  | persist {x} (h : Simple t x) : Simple t (persist x)

/-- Edits of one ingredient, perhaps several times over. -/
inductive Clausal (lex : Lexicon) : Operation → Prop
  | once {x} (h : Simple lex.taxonomy x) : Clausal lex x
  | repeated {n : Nat} {x} (hn : 0 < n) (hw : ∃ w, lex.wordForNumber n = .ok w)
      (h : Simple lex.taxonomy x) : Clausal lex (repeated n x)

/-- Edits in a row. -/
inductive Joined (lex : Lexicon) : Operation → Prop
  | one {x} (h : Clausal lex x) : Joined lex x
  | compound {x y} (hx : Joined lex x) (hy : Joined lex y) : Joined lex (compound x y)

/-- The operations that can be said. -/
inductive Sayable (lex : Lexicon) : Operation → Prop
  | finish : Sayable lex finish
  | affirm : Sayable lex affirm
  | negate : Sayable lex negate
  | checkFor {i} (h : Named lex.taxonomy i) : Sayable lex (checkFor i)
  | edit {x} (h : Joined lex x) : Sayable lex x

/-! ### Equality up to names -/

theorem andThen_of_not_compound {x z : Operation} (h : ∀ y w, x ≠ compound y w) :
    andThen x z = compound x z := by
  cases x with
  | compound y w => exact absurd rfl (h y w)
  | _ => rfl

theorem andThen_assoc : ∀ x y z : Operation, andThen (andThen x y) z = andThen x (andThen y z)
  | compound x w, y, z => by rw [andThen, andThen, andThen, andThen_assoc w y z]
  | add _ _, _, _ | remove _, _, _ | removeAll _, _, _ | repeated _ _, _, _ | ensure _, _, _
  | persist _, _, _ | affirm, _, _ | negate, _, _ | checkFor _, _, _ | finish, _, _ => rfl

theorem same_repeated {n : Nat} {x y : Operation} :
    same (repeated n x) (repeated n y) = same x y := by
  simp [same]

theorem same_compound {x y v w : Operation} :
    same (compound x y) (compound v w) = (same x v && same y w) := rfl

theorem Simple.heard_ne_compound {t : Taxonomy} {x : Operation} (h : Simple t x)
    (y w : Operation) : x.heard ≠ compound y w := by
  cases h <;> simp [heard]

theorem Clausal.heard_ne_compound {lex : Lexicon} {x : Operation} (h : Clausal lex x)
    (y w : Operation) : x.heard ≠ compound y w := by
  cases h with
  | once h => exact h.heard_ne_compound y w
  | repeated hn hw h => simp [heard]

end Operation

/-! ## 2. Trees that mean an operation -/

namespace Derivation

open Operation

variable {t : Taxonomy}

/-- Whether a clause is heard as an operation, with its skills, if nothing is missed. -/
def Numbered.Says (t : Taxonomy) (n : Numbered) (x : Operation) : Prop :=
  n.head.Plain ∧ ∃ g : Gist, n.clause.Means t g ∧ g.rolls = x.rolls ∧
    ∀ ear : Outcomes, ear.Succeed x.rolls →
      ∃ y, g.heard ear = (y, (x.skills : Language ℝ)) ∧ y.same x.heard = true

/-- Whether clauses are heard as an operation with some skills if nothing is missed. -/
def Conjoined.Says (t : Taxonomy) (c : Conjoined) (x : Operation) (skills : Language ℝ) : Prop :=
  (∀ w ∈ c.heads, w.Plain) ∧ ∃ (g : Gist) (gs : List Gist), c.first.Means t g ∧
    List.Forall₂ (Clause.Means t) c.more gs ∧ Gist.chainRolls g gs = x.rolls ∧
    ∀ ear : Outcomes, ear.Succeed x.rolls →
      ∃ y, Gist.heardChain ear g gs = (y, skills) ∧ y.same x = true

/-- The gist of a clause without a number has no count. -/
theorem count_eq_none {a : Adverbial} {g : Gist} (h : (Numbered.bare a).clause.Means t g) :
    g.count = none := h.count

/-- An adverb in front. -/
theorem says_adverb {a : Adverbial} {x y : Operation} {w : Tagged} {adverb : Adverb}
    (hw : w.is .ever = true ∨ w.is .negation = true) (hadverb : Adverb.of? w = some adverb)
    (hrolls : y.rolls = x.rolls ++ [.adverbs])
    (hskills : (y.skills : Language ℝ) = x.skills + .once .adverbs)
    (hsame : ∀ z, z.same x.heard = true → (adverb.modify z).same y.heard = true)
    (h : (Numbered.bare a).Says t x) : (Numbered.bare (.adverb w hw a)).Says t y := by
  obtain ⟨hplain, g, hmeans, hg, hheard⟩ := h
  have hcount := count_eq_none hmeans
  refine ⟨hplain, { g with adverbs := adverb :: g.adverbs }, ?_, ?_, fun ear hear => ?_⟩
  · refine ⟨hmeans.count, ?_, hmeans.core, hmeans.place⟩
    simp only [Numbered.clause, Numbered.adverbial, Adverbial.adverbs, hadverb]
    rw [hmeans.adverbs]
    rfl
  · rw [Gist.rolls_adverb hcount, hg, hrolls]
  · rw [hrolls] at hear
    obtain ⟨z, hz, hzsame⟩ := hheard ear hear.left
    have hlast := hear.last
    rw [← hg, Gist.length_rolls] at hlast
    refine ⟨adverb.modify z, ?_, hsame z hzsame⟩
    rw [Gist.heard_adverb hcount, if_pos hlast, hz, hskills]

/-- A number in front is the count. -/
theorem means_number {a : Adverbial} {g : Gist} {w : Tagged} {n : Nat} (hw : w.is .number = true)
    (hn : w.entry.map Entry.number? = some (.ok (some n))) (h0 : n ≠ 0)
    (h : (Numbered.bare a).clause.Means t g) :
    (Numbered.number w n hw hn h0 a).clause.Means t { g with count := some n } :=
  ⟨rfl, h.adverbs, h.core, h.place⟩

/-- A number in front. -/
theorem says_number {a : Adverbial} {x : Operation} {w : Tagged} {n : Nat}
    (hw : w.is .number = true) (hn : w.entry.map Entry.number? = some (.ok (some n)))
    (h0 : n ≠ 0) (h : (Numbered.bare a).Says t x) :
    (Numbered.number w n hw hn h0 a).Says t (repeated n x) := by
  obtain ⟨hplain, g, hmeans, hg, hheard⟩ := h
  have hcount := count_eq_none hmeans
  refine ⟨hplain, { g with count := some n }, means_number hw hn h0 hmeans, ?_, fun ear hear => ?_⟩
  · rw [Gist.rolls_count hcount, hg]
    rfl
  · obtain ⟨z, hz, hzsame⟩ := hheard ear hear.left
    have hlast := hear.last
    rw [← hg, Gist.length_rolls] at hlast
    refine ⟨repeated n z, ?_, by rw [heard, same_repeated]; exact hzsame⟩
    rw [Gist.heard_count hcount, if_pos hlast, hz, skills, add_comm]

/-- A single clause. -/
theorem says_last {n : Numbered} {x : Operation} (hrolls : x.heard.rolls = x.rolls)
    (h : n.Says t x) : (Conjoined.last n).Says t x.heard x.skills := by
  obtain ⟨hplain, g, hmeans, hg, hheard⟩ := h
  refine ⟨?_, g, [], hmeans, .nil, by rw [hrolls, ← hg]; rfl, ?_⟩
  · intro w hw
    rw [List.mem_singleton.mp hw]
    exact hplain
  · rw [hrolls]
    exact hheard

/-- A conjunction and further clauses. -/
theorem says_and {n : Numbered} {x z : Operation} {w : Tagged} {c : Conjoined}
    {k : Language ℝ} (hw : w.is .conjunction = true) (hrolls : x.heard.rolls = x.rolls)
    (h : n.Says t x) (hc : c.Says t z k) :
    (Conjoined.and n w hw c).Says t (compound x.heard z) (x.skills + k + .once .conjunction) := by
  obtain ⟨hplain, g, hmeans, hg, hheard⟩ := h
  obtain ⟨hplains, g', gs, hfirst, hmore, hgs, hlater⟩ := hc
  have hchain : Gist.chainRolls g (g' :: gs) = (compound x.heard z).rolls := by
    rw [Gist.chainRolls, hg, hgs, rolls, hrolls]
  refine ⟨?_, g, g' :: gs, hmeans, .cons hfirst hmore, hchain, fun ear hear => ?_⟩
  · intro v hv
    rcases List.mem_cons.mp hv with rfl | hv
    · exact hplain
    · exact hplains v hv
  · rw [rolls, hrolls] at hear
    obtain ⟨y, hy, hysame⟩ := hheard ear hear.left.left
    obtain ⟨y', hy', hysame'⟩ := hlater _ hear.left.right
    have hlast := hear.last
    rw [List.length_append, ← hg, ← hgs, Gist.length_rolls, Gist.length_chainRolls] at hlast
    rw [← hg, Gist.length_rolls] at hy'
    refine ⟨compound y y', ?_, by rw [same_compound, hysame, hysame']; rfl⟩
    rw [Gist.heardChain, hy, hy']
    simp only [hlast, if_true]

/-! ### Clauses of a noun and a verb -/

section Core

variable {c : Core} {i j : Ingredient} (hj : t.referent c.noun = .ok j) (hname : j.name = i.name)

include hj hname

/-- A noun and the verb of desire. -/
theorem says_want (hv : c.verb.is .desire = true) :
    (Numbered.bare (.bare (.bare c))).Says t (add i .top) := by
  rw [Tagged.is_iff] at hv
  refine ⟨Taxonomy.plain_of_referent hj, ⟨none, [], none, add j .top⟩, ⟨rfl, rfl, ?_, rfl⟩, rfl,
    fun ear hear => ⟨add j .top, rfl, ?_⟩⟩
  · simp [Clause.core, Numbered.clause, Numbered.adverbial, Adverbial.positional, Positional.core,
      hj, hv]
  · simp [same, Ingredient.same, sameRelative, Operation.heard, hname]

/-- A noun and the verb of possession. -/
theorem says_have (hv : c.verb.is .possession = true) :
    (Numbered.bare (.bare (.bare c))).Says t (ensure i) := by
  rw [Tagged.is_iff] at hv
  refine ⟨Taxonomy.plain_of_referent hj, ⟨none, [], none, ensure j⟩, ⟨rfl, rfl, ?_, rfl⟩, rfl,
    fun ear hear => ⟨ensure j, rfl, ?_⟩⟩
  · simp [Clause.core, Numbered.clause, Numbered.adverbial, Adverbial.positional, Positional.core,
      hj, hv]
  · simp [same, Ingredient.same, Operation.heard, hname]

/-- An anchor and a preposition in front. -/
theorem says_placed {anchor preposition : Tagged} {a b : Ingredient} {side : Side}
    (hn : anchor.isNoun = true)
    (hs : preposition.is .before = true ∨ preposition.is .after = true)
    (hside : Side.of? preposition = some side) (hb : t.referent anchor = .ok b)
    (hanchor : b.name = a.name) (hv : c.verb.is .desire = true) :
    (Numbered.bare (.bare (.placed anchor preposition hn hs c))).Says t
      (add i (side.relative a)) := by
  rw [Tagged.is_iff] at hv
  have htop : (side.relative a).position ≠ .top := by
    cases side <;> simp [Side.relative, Relative.before, Relative.after]
  have hrolls : (add i (side.relative a)).rolls = [.adposition] := if_neg htop
  refine ⟨Taxonomy.plain_of_referent hb, ⟨none, [], some (side.relative b), add j .top⟩,
    ⟨rfl, rfl, ?_, ?_⟩, hrolls.symm, fun ear hear => ⟨add j (side.relative b), ?_, ?_⟩⟩
  · simp [Clause.core, Numbered.clause, Numbered.adverbial, Adverbial.positional, Positional.core,
      hj, hv]
  · simp [Numbered.clause, Numbered.adverbial, Adverbial.positional, Positional.placement, hside,
      hb]
  · rw [hrolls] at hear
    have hfirst := hear 0 .adposition rfl
    simp only [Gist.heard, Gist.heardAdverbs, Gist.heardPlaced, hfirst, if_true]
    rw [skills, if_neg htop, Language.unused_eq_zero, zero_add]
  · cases side <;> simp [same, Ingredient.same, sameRelative, Operation.heard, hname, hanchor,
      Side.relative, Relative.before, Relative.after]

end Core

end Derivation

/-! ## 3. The words of an operation -/

namespace Operation

open DeliTalk.Derivation Lexicon

variable {t : Taxonomy} {words : List (String × Entry)} (h : Clear t words) {g : Grammar}
  (hg : g.lexicon = build t words)

/-- Whether some words are said for an operation: they have syllables, and what a listener
annotates them with are the words of a tree. -/
structure SaidAs (g : Grammar) (x : Operation) (ts : List Tagged) (tree : List Tagged) :
    Prop where
  encode : x.encode g.lexicon = .ok ts
  syllables : ∀ w ∈ ts, w.word.syllables ≠ []
  heard : g.annotate (ts.map (·.word)) = tree

/-- One more word in front of what is said. -/
theorem SaidAs.cons {x y : Operation} {w : Tagged} {ts tree : List Tagged} (hx : SaidAs g x ts tree)
    (hencode : y.encode g.lexicon = .ok (w :: ts)) (htag : g.tag w.word = w)
    (hne : w.word.syllables ≠ []) : SaidAs g y (w :: ts) (w :: tree) := by
  refine ⟨hencode, List.forall_mem_cons.mpr ⟨hne, hx.syllables⟩, ?_⟩
  rw [← hx.heard, Grammar.annotate, List.map_cons, List.map_cons, htag]
  rfl

include h hg

/-- An ingredient with the name of a node has a noun, which refers to it. -/
theorem Named.exists_noun {i : Ingredient} (hi : Named t i) :
    ∃ (w : Tagged) (j : Ingredient), g.lexicon.wordForIngredient i = .ok w ∧
      w.word.syllables ≠ [] ∧ (g.tag w.word).isNoun = true ∧
      t.referent (g.tag w.word) = .ok j ∧ j.name = i.name := by
  obtain ⟨p, hp, hroot, hname⟩ := hi
  obtain ⟨w, hw, hne, hnoun, hreferent⟩ := h.exists_noun hg hp hroot hname
  rw [← hg] at hw
  refine ⟨w, _, hw, hne, hnoun, hreferent, ?_⟩
  rw [hname]
  cases p.1.isLeaf <;> rfl

/-- There is a verb for wanting and one for having. -/
theorem exists_verb {u : Usage} (hu : u = .desire ∨ u = .possession) :
    ∃ w : Tagged, g.lexicon.wordForUsage u = .ok w ∧ g.tag w.word = w ∧
      w.word.syllables ≠ [] ∧ w.is u = true ∧ w.part = some .verb := by
  obtain ⟨w, hw, htag, his, hne, hpart⟩ :=
    h.exists_usage_word hg (u := u) (by rcases hu with rfl | rfl <;> simp)
  exact ⟨w, by rw [hg]; exact hw, htag, hne, his, hpart hu⟩

/-- There is a word for every other usage. -/
theorem exists_function_word {u : Usage} (hu : u ≠ .ingredient) :
    ∃ w : Tagged, g.lexicon.wordForUsage u = .ok w ∧ g.tag w.word = w ∧
      w.word.syllables ≠ [] ∧ w.is u = true := by
  obtain ⟨w, hw, htag, his, hne, -⟩ := h.exists_usage_word hg hu
  exact ⟨w, by rw [hg]; exact hw, htag, hne, his⟩

/-- Wanting an ingredient on top. -/
theorem exists_want {i : Ingredient} (hi : Named t i) : ∃ ts a,
    SaidAs g (add i .top) ts (Adverbial.words a) ∧ (Numbered.bare a).Says t (add i .top) := by
  obtain ⟨n, j, hn, hne, hnoun, hj, hname⟩ := hi.exists_noun h hg
  obtain ⟨v, hv, htag, hvne, his, hpart⟩ := exists_verb h hg (u := .desire) (Or.inl rfl)
  refine ⟨[n, v], .bare (.bare ⟨g.tag n.word, v, hnoun, hpart, Or.inl his⟩), ⟨?_, ?_, ?_⟩,
    says_want hj hname his⟩
  · simp only [encode, wantWords, hn, hv]
    rfl
  · simpa using ⟨hne, hvne⟩
  · simp [Grammar.annotate, Adverbial.words, Positional.words, Core.words, htag]

/-- Having an ingredient. -/
theorem exists_have {i : Ingredient} (hi : Named t i) : ∃ ts a,
    SaidAs g (ensure i) ts (Adverbial.words a) ∧ (Numbered.bare a).Says t (ensure i) := by
  obtain ⟨n, j, hn, hne, hnoun, hj, hname⟩ := hi.exists_noun h hg
  obtain ⟨v, hv, htag, hvne, his, hpart⟩ := exists_verb h hg (u := .possession) (Or.inr rfl)
  refine ⟨[n, v], .bare (.bare ⟨g.tag n.word, v, hnoun, hpart, Or.inr his⟩), ⟨?_, ?_, ?_⟩,
    says_have hj hname his⟩
  · simp only [encode, hn, hv]
    rfl
  · simpa using ⟨hne, hvne⟩
  · simp [Grammar.annotate, Adverbial.words, Positional.words, Core.words, htag]

/-- There is a preposition for each side. -/
theorem exists_preposition (side : Side) :
    ∃ w : Tagged, g.lexicon.wordForUsage side.usage = .ok w ∧ g.tag w.word = w ∧
      w.word.syllables ≠ [] ∧ Side.of? w = some side ∧
      (w.is .before = true ∨ w.is .after = true) := by
  obtain ⟨w, hw, htag, hne, his⟩ :=
    exists_function_word h hg (u := side.usage) (by cases side <;> simp [Side.usage])
  refine ⟨w, hw, htag, hne, ?_, ?_⟩
  · rw [Tagged.is_iff] at his
    cases side <;> simp [Side.of?, his, Side.usage]
  · cases side
    · exact Or.inl his
    · exact Or.inr his

/-- Wanting an ingredient next to another one. -/
theorem exists_placed {i b : Ingredient} (hi : Named t i) (hb : Named t b) (side : Side) : ∃ ts a,
    SaidAs g (add i (side.relative b)) ts (Adverbial.words a) ∧
      (Numbered.bare a).Says t (add i (side.relative b)) := by
  obtain ⟨n, j, hn, hne, hnoun, hj, hname⟩ := hi.exists_noun h hg
  obtain ⟨m, k, hm, hmne, hmnoun, hk, hkname⟩ := hb.exists_noun h hg
  obtain ⟨v, hv, htag, hvne, his, hpart⟩ := exists_verb h hg (u := .desire) (Or.inl rfl)
  obtain ⟨s, hs, hstag, hsne, hside, hsis⟩ := exists_preposition h hg side
  have hleaf : g.lexicon.wordForIngredient b.leaf = .ok m := hm
  refine ⟨[m, s, n, v], .bare (.placed (g.tag m.word) s hmnoun hsis
    ⟨g.tag n.word, v, hnoun, hpart, Or.inl his⟩), ⟨?_, ?_, ?_⟩,
    says_placed hj hname hmnoun hsis hside hk hkname his⟩
  · cases side <;>
    · simp only [Side.usage] at hs
      simp only [encode, wantWords, Side.relative, Relative.before, Relative.after, hleaf, hs, hn,
        hv]
      rfl
  · simpa using ⟨hmne, hsne, hne, hvne⟩
  · simp [Grammar.annotate, Adverbial.words, Positional.words, Core.words, htag, hstag]

/-- An adverb in front of what is said. -/
theorem exists_adverb_said {x y : Operation} {u : Usage} {adverb : Adverb}
    (hu : u = .ever ∧ adverb = .ever ∨ u = .negation ∧ adverb = .negation)
    (hencode : ∀ (w : Tagged) (ts : List Tagged), g.lexicon.wordForUsage u = .ok w →
      x.encode g.lexicon = .ok ts → y.encode g.lexicon = .ok (w :: ts))
    (hrolls : y.rolls = x.rolls ++ [.adverbs])
    (hskills : (y.skills : Language ℝ) = x.skills + .once .adverbs)
    (hsame : ∀ z, z.same x.heard = true → (adverb.modify z).same y.heard = true)
    (hx : ∃ ts a, SaidAs g x ts (Adverbial.words a) ∧ (Numbered.bare a).Says t x) :
    ∃ ts a, SaidAs g y ts (Adverbial.words a) ∧ (Numbered.bare a).Says t y := by
  obtain ⟨ts, a, hsaid, hsent⟩ := hx
  obtain ⟨w, hw, htag, hne, his⟩ :=
    exists_function_word h hg (u := u) (by rcases hu with ⟨rfl, -⟩ | ⟨rfl, -⟩ <;> simp)
  have hadverb : Adverb.of? w = some adverb := by
    rw [Tagged.is_iff] at his
    rcases hu with ⟨rfl, rfl⟩ | ⟨rfl, rfl⟩ <;> simp [Adverb.of?, his]
  have hfits : w.is .ever = true ∨ w.is .negation = true := by
    rcases hu with ⟨rfl, -⟩ | ⟨rfl, -⟩
    · exact Or.inl his
    · exact Or.inr his
  exact ⟨w :: ts, .adverb w hfits a, hsaid.cons (hencode w ts hw hsaid.encode) htag hne,
    says_adverb hfits hadverb hrolls hskills hsame hsent⟩

omit h hg in
theorem removeWords_eq {lex : Lexicon} {i : Ingredient} {w : Tagged} {ts : List Tagged}
    (hw : lex.wordForUsage .negation = .ok w) (hts : (add i .top).encode lex = .ok ts) :
    removeWords lex i = .ok (w :: ts) := by
  rw [encode] at hts
  simp only [removeWords, hw, hts]
  rfl

/-- Removing an ingredient. -/
theorem exists_remove {i : Ingredient} (hi : Named t i) : ∃ ts a,
    SaidAs g (remove i) ts (Adverbial.words a) ∧ (Numbered.bare a).Says t (remove i) := by
  refine exists_adverb_said h hg (u := .negation) (Or.inr ⟨rfl, rfl⟩)
    (fun w ts hw hts => removeWords_eq hw hts) rfl ?_ ?_ (exists_want h hg hi)
  · exact (zero_add _).symm
  · intro z hz
    cases z <;> simp_all [same, Operation.heard, Adverb.modify, reverse]

/-- **Edits of one ingredient are said** in words that are heard as the edit. -/
theorem Simple.exists_said {x : Operation} (hx : Simple t x) : ∃ ts a,
    SaidAs g x ts (Adverbial.words a) ∧ (Numbered.bare a).Says t x := by
  induction hx with
  | add hi => exact exists_want h hg hi
  | addBefore hi ha => exact exists_placed h hg hi ha .before
  | addAfter hi ha => exact exists_placed h hg hi ha .after
  | remove hi => exact exists_remove h hg hi
  | ensure hi => exact exists_have h hg hi
  | @removeAll i hi =>
    refine exists_adverb_said h hg (x := Operation.remove i) (u := .ever) (Or.inl ⟨rfl, rfl⟩) ?_
      rfl ?_ (fun z hz => hz) (exists_remove h hg hi)
    · intro w ts hw hts
      have hremove : removeWords g.lexicon i = .ok ts := hts
      simp only [encode, hw, hremove]
      rfl
    · refine Language.ext_get fun s => ?_
      rw [Language.get_add]
      cases s <;> norm_num [skills, Language.set, Language.once, Language.get, Language.unused,
        Language.uniform]
  | persist hx ih =>
    refine exists_adverb_said h hg (u := .ever) (Or.inl ⟨rfl, rfl⟩) ?_ rfl ?_ (fun z hz => hz) ih
    · intro w ts hw hts
      rw [encode]
      simp only [hw, hts]
      rfl
    · rw [skills, add_comm]

/-- **Edits with a number** are said in the words of one clause. -/
theorem Clausal.exists_said {x : Operation} (hx : Clausal g.lexicon x) : ∃ ts n,
    SaidAs g x ts (Numbered.words n) ∧ n.Says t x := by
  have ht : g.lexicon.taxonomy = t := by rw [hg]; rfl
  cases hx with
  | once hx =>
    rw [ht] at hx
    obtain ⟨ts, a, hsaid, hsent⟩ := hx.exists_said h hg
    exact ⟨ts, .bare a, ⟨hsaid.encode, hsaid.syllables, hsaid.heard⟩, hsent⟩
  | @repeated n y hn hw hx =>
    rw [ht] at hx
    obtain ⟨ts, a, hsaid, hsent⟩ := hx.exists_said h hg
    obtain ⟨w, hw⟩ := hw
    obtain ⟨htag, his, hvalue, hne⟩ := h.exists_number_word hg (by rw [← hg]; exact hw)
    refine ⟨w :: ts, .number w n his hvalue hn.ne' a, hsaid.cons ?_ htag hne,
      says_number his hvalue hn.ne' hsent⟩
    simp only [encode, hw, hsaid.encode]
    rfl

omit h hg in
theorem skills_compound (x y : Operation) :
    ((compound x y).skills : Language ℝ) = x.skills + y.skills + .once .conjunction := by
  rw [skills]
  abel

omit h hg in
theorem Simple.heard_rolls {x : Operation} (hx : Simple t x) : x.heard.rolls = x.rolls := by
  induction hx with
  | persist hx ih => rw [Operation.heard, rolls, rolls, ih]
  | _ => rfl

omit h hg in
theorem Clausal.heard_rolls {lex : Lexicon} {x : Operation} (hx : Clausal lex x) :
    x.heard.rolls = x.rolls := by
  cases hx with
  | once hx => exact hx.heard_rolls
  | repeated hn hw hx => rw [Operation.heard, rolls, rolls, hx.heard_rolls]

/-- **Edits in a row are said**, alone and in front of further clauses. -/
theorem Joined.exists_said {x : Operation} (hx : Joined g.lexicon x) : ∃ ts,
    (∃ c, SaidAs g x ts (Conjoined.words c) ∧ c.Says t x.heard x.skills) ∧
    ∀ (w : Tagged) (d : Conjoined) (z : Operation) (k : Language ℝ),
      w.is .conjunction = true → d.Says t z k → ∃ c,
        Conjoined.words c = g.annotate (ts.map (·.word)) ++ w :: d.words ∧
          c.Says t (x.heard.andThen z) (x.skills + k + .once .conjunction) := by
  induction hx with
  | @one x hx =>
    obtain ⟨ts, n, hsaid, hsent⟩ := hx.exists_said h hg
    refine ⟨ts, ⟨.last n, ⟨hsaid.encode, hsaid.syllables, hsaid.heard⟩,
      says_last hx.heard_rolls hsent⟩, fun w d z k hw hd => ⟨.and n w hw d, ?_, ?_⟩⟩
    · rw [hsaid.heard, Conjoined.words]
    · rw [andThen_of_not_compound hx.heard_ne_compound]
      exact says_and hw hx.heard_rolls hsent hd
  | @compound x y hx hy ihx ihy =>
    obtain ⟨us, ⟨c, hx, -⟩, hxthen⟩ := ihx
    obtain ⟨vs, ⟨d, hy, hysays⟩, hythen⟩ := ihy
    obtain ⟨w, hw, htag, hne, his⟩ := exists_function_word h hg (u := .conjunction) (by simp)
    have hwords : g.annotate ((us ++ w :: vs).map (·.word)) =
        g.annotate (us.map (·.word)) ++ w :: g.annotate (vs.map (·.word)) := by
      simp [Grammar.annotate, htag]
    refine ⟨us ++ w :: vs, ?_, fun w' e z k hw' he => ?_⟩
    · obtain ⟨b, hb, hsent⟩ := hxthen w d y.heard y.skills his hysays
      refine ⟨b, ⟨?_, ?_, ?_⟩, ?_⟩
      · simp only [encode, hx.encode, hy.encode, hw]
        rfl
      · intro v hv
        rcases List.mem_append.mp hv with hv | hv
        · exact hx.syllables v hv
        · rcases List.mem_cons.mp hv with rfl | hv
          · exact hne
          · exact hy.syllables v hv
      · rw [hwords, hy.heard, hb]
      · rw [skills_compound]
        exact hsent
    · obtain ⟨b, hb, hbsays⟩ := hythen w' e z k hw' he
      obtain ⟨a, ha, hsent⟩ := hxthen w b _ _ his hbsays
      refine ⟨a, ?_, ?_⟩
      · rw [ha, hb, hwords, List.append_assoc, List.cons_append]
      · have hskills : x.skills + y.skills + .once .conjunction + k + .once .conjunction =
            x.skills + (y.skills + k + .once .conjunction) + .once .conjunction := by abel
        rw [Operation.heard, andThen_assoc, skills_compound, hskills]
        exact hsent

end Operation

/-! ## 4. Listeners -/

namespace Sentence

open DeliTalk.Derivation

variable {R : Type} [Scalar R] {t : Taxonomy} {c : Conjoined} {g : Gist} {gs : List Gist}
  (hheads : ∀ w ∈ c.heads, w.Plain) (hfirst : c.first.Means t g)
  (hmore : List.Forall₂ (Clause.Means t) c.more gs) (skills : Language R) (chance : Chance R)

include hheads hfirst hmore

theorem perform_understandAll :
    (understandAll t skills c.words).perform chance =
      (.ok (some (Gist.heardChain (skills.catches chance) g gs)),
        chance.after (Gist.chainDraws g gs)) := by
  unfold understandAll
  rw [outline_words hheads]
  simp only [Act.perform_bind, Clause.perform_understandChain skills [] chance hfirst hmore]
  rfl

/-- Clauses that derive are understood as their gists say. -/
theorem perform_statement :
    (understand t skills c.words).perform chance =
      (.ok (some (Gist.heardChain (skills.catches chance) g gs)),
        chance.after (Gist.chainDraws g gs)) := by
  have hall := perform_understandAll hheads hfirst hmore skills chance
  have hquestion := fun w hw s => Conjoined.words_ne_question (w := w) hheads hw s
  have hlength := c.two_le_words
  cases hwords : c.words with
  | nil => simp [hwords] at hlength
  | cons w rest =>
    have halone : ¬ Alone w rest := by
      rintro ⟨rfl, -⟩
      simp [hwords] at hlength
    rw [understand_of_not_alone halone, if_neg fun hw => hquestion w hw rest hwords, ← hwords]
    exact hall

/-- Clauses after a question word are understood as asking for what their gists say. -/
theorem perform_question {w : Tagged} (hw : w.is .question = true) :
    (understand t skills (w :: c.words)).perform chance =
      (.ok (some ((Gist.heardChain (skills.catches chance) g gs : Understood R).1.question,
        (Gist.heardChain (skills.catches chance) g gs).2)),
        chance.after (Gist.chainDraws g gs)) := by
  have hall := perform_understandAll hheads hfirst hmore skills chance
  have hlength := c.two_le_words
  have halone : ¬ Alone w c.words := by
    rintro ⟨hempty, -⟩
    simp [hempty] at hlength
  rw [understand_of_not_alone halone, if_pos hw, Act.perform_bind, hall]
  rfl

end Sentence

namespace Grammar

open Operation DeliTalk.Derivation

/-- What is understood at the first attempt is the reading of a phrase. -/
theorem perform_parse {R : Type} [Scalar R] {g : Grammar} {ts : List Tagged} {m m' : Mind R}
    {u : Understood R} (hne : ts ≠ []) (hsyllables : ∀ w ∈ ts, w.word.syllables ≠ [])
    (h : (g.sentence (g.annotate (ts.map (·.word)))).perform m = (.ok (some u), m')) :
    (g.parse false (Phrase.render ts)).perform m =
      (.ok ⟨u.1, u.2, lexed (g.annotate (ts.map (·.word))), 1⟩, m') := by
  unfold parse
  rw [Phrase.read_render hne hsyllables]
  simp only [Act.perform_bind, Bool.false_eq_true, if_false]
  rw [show (1 : Int).toNat = 0 + 1 from rfl, tryAgain]
  simp only [tryOnce, Act.perform_bind, Bool.false_eq_true, if_false, Act.perform_pure,
    Act.perform_attempt, h]
  rfl

/-- What a listener makes of words, by its skills and its source of chance. -/
theorem perform_sentence {R : Type} [Scalar R] {g : Grammar} {ts : List Tagged} {m : Mind R}
    {r : Except Fault (Option (Understood R))} {c : Chance R}
    (h : (Sentence.understand g.lexicon.taxonomy m.personality.language ts).perform m.chance =
      (r, c)) : (g.sentence ts).perform m = (r, { m with chance := c }) := by
  unfold sentence
  simp only [Act.perform_bind, Act.perform_get, Mind.lucky, Act.perform_on, h]

/-- Whether an operation that is said comes back at the first attempt, with the skills it takes. -/
def ComesBack (g : Grammar) (m : Mind ℝ) (x : Operation) : Prop :=
  ∃ ts reading, x.encode g.lexicon = .ok ts ∧
    (g.parse false (Phrase.render ts)).perform m =
      (.ok reading, { m with chance := m.chance.after x.heard.rolls.length }) ∧
    reading.attempts = 1 ∧ reading.operation.same x.heard = true ∧ reading.skills = x.skills

theorem comesBack_of {g : Grammar} {m : Mind ℝ} {x y : Operation} {ts : List Tagged}
    (hencode : x.encode g.lexicon = .ok ts) (hne : ts ≠ [])
    (hsyllables : ∀ w ∈ ts, w.word.syllables ≠ []) (hsame : y.same x.heard = true)
    (h : (Sentence.understand g.lexicon.taxonomy m.personality.language
      (g.annotate (ts.map (·.word)))).perform m.chance =
        (.ok (some (y, x.skills)), m.chance.after x.heard.rolls.length)) : ComesBack g m x :=
  ⟨ts, _, hencode, perform_parse hne hsyllables (perform_sentence h), rfl, hsame, rfl⟩

section Clear

variable {t : Taxonomy} {words : List (String × Entry)} (h : Lexicon.Clear t words)
  {g : Grammar} (hg : g.lexicon = Lexicon.build t words) (m : Mind ℝ)

include h hg

/-- A word that stands for itself comes back. -/
theorem comesBack_single {u : Usage} {x : Operation} (hu : u ≠ .ingredient)
    (hsingle : ∀ w : Tagged, w.usage? = some u → Sentence.single? w = some x)
    (hencode : ∀ w, g.lexicon.wordForUsage u = .ok w → x.encode g.lexicon = .ok [w])
    (hskills : (x.skills : Language ℝ) = .unused) (hrolls : x.heard.rolls = [])
    (hsame : x.same x.heard = true) : ComesBack g m x := by
  obtain ⟨w, hw, htag, hne, his⟩ := exists_function_word h hg hu
  refine comesBack_of (hencode w hw) (by simp) (by simpa using hne) hsame ?_
  rw [hskills, hrolls]
  simp [annotate, htag, Sentence.understand, hsingle w (Tagged.is_iff.mp his)]

/-- Clauses come back. -/
theorem comesBack_joined {x : Operation} (hx : Joined g.lexicon x)
    (hrolls : (m.personality.language.catches m.chance).Succeed x.heard.rolls) :
    ComesBack g m x := by
  obtain ⟨ts, ⟨c, hsaid, hheads, k, gs, hfirst, hmore, hchain, hheard⟩, -⟩ := hx.exists_said h hg
  obtain ⟨y, hy, hsame⟩ := hheard _ hrolls
  have hunderstand :=
    Sentence.perform_statement hheads hfirst hmore m.personality.language m.chance
  rw [hy, ← hsaid.heard, ← Gist.length_chainRolls, hchain] at hunderstand
  refine comesBack_of hsaid.encode ?_ hsaid.syllables hsame ?_
  · rintro rfl
    have := c.two_le_words
    rw [← hsaid.heard] at this
    simp [annotate] at this
  · rw [hg]
    exact hunderstand

/-- Asking for an ingredient comes back. -/
theorem comesBack_checkFor {i : Ingredient} (hi : Named t i) : ComesBack g m (checkFor i) := by
  obtain ⟨w, hw, htag, hne, his⟩ := exists_function_word h hg (u := .question) (by simp)
  obtain ⟨n, j, hn, hnne, hnoun, hj, hname⟩ := hi.exists_noun h hg
  obtain ⟨v, hv, hvtag, hvne, hvis, hpart⟩ := exists_verb h hg (u := .possession) (Or.inr rfl)
  have hsent := says_last rfl (says_have (t := t)
    (c := ⟨g.tag n.word, v, hnoun, hpart, Or.inr hvis⟩) hj hname hvis)
  obtain ⟨hheads, k, gs, hfirst, hmore, hchain, hheard⟩ := hsent
  obtain ⟨y, hy, hsame⟩ := hheard (m.personality.language.catches m.chance) (by
    intro k s hs
    simp [Operation.heard, rolls] at hs)
  have hunderstand :=
    Sentence.perform_question hheads hfirst hmore m.personality.language m.chance his
  rw [hy, ← Gist.length_chainRolls, hchain] at hunderstand
  refine @comesBack_of g m _ y.question [w, n, v] ?_ (by simp) ?_ ?_ ?_
  · simp only [encode, hw, hn, hv]
    rfl
  · simpa using ⟨hne, hnne, hvne⟩
  · cases y <;> simp_all [same, Operation.heard, question]
  · have hwords : g.annotate ([w, n, v].map (·.word)) = [w, g.tag n.word, v] := by
      simp [annotate, htag, hvtag]
    rw [hwords, hg]
    exact hunderstand

/-- **What can be said comes back.** -/
theorem comesBack_sayable {x : Operation} (hx : x.Sayable g.lexicon)
    (hrolls : (m.personality.language.catches m.chance).Succeed x.heard.rolls) :
    ComesBack g m x := by
  cases hx with
  | finish =>
    exact comesBack_single h hg m (u := .greeting) (by simp)
      (fun w hw => by simp [Sentence.single?, hw]) (fun w hw => by simp only [encode, hw]; rfl)
      rfl rfl rfl
  | affirm =>
    exact comesBack_single h hg m (u := .affirmation) (by simp)
      (fun w hw => by simp [Sentence.single?, hw]) (fun w hw => by simp only [encode, hw]; rfl)
      rfl rfl rfl
  | negate =>
    exact comesBack_single h hg m (u := .negation) (by simp)
      (fun w hw => by simp [Sentence.single?, hw]) (fun w hw => by simp only [encode, hw]; rfl)
      rfl rfl rfl
  | checkFor hi =>
    refine comesBack_checkFor h hg m ?_
    rw [hg] at hi
    exact hi
  | edit hx => exact comesBack_joined h hg m hx hrolls

end Clear

/-- **The round trip**: in a sound language every operation that can be said is said, and a
listener whose rolls all succeed hears it at the first attempt, with the skills it takes. -/
theorem parse_encode {t : Taxonomy} {words : List (String × Entry)} (h : Lexicon.Sound t words)
    (retries : Int) {x : Operation} (hx : x.Sayable (Lexicon.build t words)) (m : Mind ℝ)
    (hrolls : (m.personality.language.catches m.chance).Succeed x.heard.rolls) :
    ∃ ts reading, x.encode (Lexicon.build t words) = .ok ts ∧
      (parse ⟨Lexicon.build t words, retries⟩ false (Phrase.render ts)).perform m =
        (.ok reading, { m with chance := m.chance.after x.heard.rolls.length }) ∧
      reading.attempts = 1 ∧ reading.operation.same x.heard = true ∧
      reading.skills = x.skills := by
  let g : Grammar := ⟨Lexicon.build t words, retries⟩
  show ComesBack g m x
  exact comesBack_sayable h.clear rfl m hx hrolls

/-- A listener whose rolls all succeed. -/
noncomputable def attentive : Mind ℝ :=
  ⟨{ Personality.standard with language := .uniform 1 }, .scripted (fun _ => 0) 0⟩

theorem attentive_succeed (rolls : List Skill) :
    (attentive.personality.language.catches attentive.chance).Succeed rolls := by
  intro k s _
  have hskill : attentive.personality.language.get s = 1 := by cases s <;> rfl
  rw [Language.catches, hskill]
  simp [attentive, Chance.after_scripted, Chance.draw]

/-- Two cheeses for good and no more lettuce, and an onion below the vegetables. -/
def manyThings : Operation :=
  .compound (.compound (.repeated 2 (.persist (.add ⟨"cheese", "wa", none⟩ .top)))
    (.removeAll ⟨"lettuce", "ta", none⟩))
    (.add ⟨"onion", "on", none⟩ (.before ⟨"vegetable", "we", none⟩))

theorem sayable_manyThings : manyThings.Sayable Lexicon.house := by
  have hnumber : ∃ w, Lexicon.house.wordForNumber 2 = .ok w :=
    Lexicon.exists_of_isOk (by decide +kernel)
  exact .edit (.compound (.compound
    (.one (.repeated (by decide) hnumber (.persist (.add (by unfold Named; decide +kernel)))))
    (.one (.once (.removeAll (by unfold Named; decide +kernel)))))
    (.one (.once (.addBefore (by unfold Named; decide +kernel) (by unfold Named; decide +kernel)))))

/-- In the house the chain comes back leaning to the right. -/
theorem parse_manyThings : ∃ ts reading, manyThings.encode Lexicon.house = .ok ts ∧
    (parse ⟨Lexicon.house, 30⟩ false (Phrase.render ts)).perform attentive =
      (.ok reading, { attentive with chance := attentive.chance.after 7 }) ∧
    reading.attempts = 1 ∧ reading.operation.same manyThings.heard = true ∧
    reading.skills = manyThings.skills :=
  parse_encode Lexicon.sound_house 30 sayable_manyThings attentive (attentive_succeed _)

end Grammar

end DeliTalk
