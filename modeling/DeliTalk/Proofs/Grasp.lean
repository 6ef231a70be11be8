import DeliTalk.Proofs.Portions

/-!
# The shapes of what is understood

Whatever a listener makes of a text in a language whose words can be told apart, and whichever
rolls fail on the way, it comes down to a few shapes: a word that stands alone, edits in a row, or
the question of them. A noun may be understood as a category above the leaf it starts like, and
negations pile up, but every ingredient is a node of the menu and every number has a word.

* `Lexicon.Clear.recognized_tag`: what the words of a clear language refer to.
* `Operation.Phrased`, `Operation.Chained`, `Operation.Graspable`: what clauses, chains of them and
  sentences are understood as.
* `Clause.returns_understand`, `Clause.returns_understandChain`, `Sentence.returns_understand`: they
  are.
* `Grammar.returns_parse`, `Grammar.returns_parse_graspable`: any text.
-/

namespace DeliTalk

open Act

/-! ## 1. Words that are recognized -/

/-- Whether a number has a word. -/
def Lexicon.Counts (lex : Lexicon) (n : Nat) : Prop := ∃ p ∈ lex.entries, p.2.IsNumber n

namespace Taxonomy

variable {t : Taxonomy}

/-- What a word refers to by its morphemes is a node other than the root. -/
theorem named_of_byMorphemes {w : Tagged} {i : Ingredient}
    (h : referent.byMorphemes t w = .ok i) : Operation.Named t i := by
  obtain ⟨q, hq, hnode⟩ :=
    exists_mem_walk_descend w.word.syllables.tail t.root_mem_walk
  have hname : (t.ingredientFor w.word).name = q.1.name := by
    unfold ingredientFor
    simp only [hnode]
    split <;> rfl
  unfold referent.byMorphemes at h
  simp only at h
  split at h
  · cases h
  · rename_i hroot
    cases h
    refine ⟨q, hq, ?_, hname⟩
    rw [← hname]
    simpa [Ingredient.same] using hroot

end Taxonomy

/-- Whether a word is at home in a language: as a noun it refers to a node of the menu other than
the root, and as a number to one that has a word. -/
structure Tagged.Recognized (lex : Lexicon) (w : Tagged) : Prop where
  noun : ∀ i, lex.taxonomy.referent w = .ok i → Operation.Named lex.taxonomy i
  number : w.is .number = true → ∀ n, w.entry.map Entry.number? = some (.ok (some n)) →
    lex.Counts n

namespace Lexicon.Clear

variable {t : Taxonomy} {words : List (String × Entry)} (h : Clear t words)

include h

/-- An ingredient's entry is a leaf's. -/
theorem gloss_mem_leafNames {p : String × Entry} (hp : p ∈ (build t words).entries)
    (hu : p.2.usage = .ingredient) : p.2.gloss ∈ t.leafNames := by
  rw [entries_build] at hp
  rcases mem_insertAll hp with hp | hp
  · obtain ⟨q, hq, hleaf, rfl⟩ := mem_nouns.mp hp
    exact Taxonomy.mem_leafNames.mpr ⟨q, hq, hleaf, rfl⟩
  · rcases mem_insertAll hp with hp | hp
    · exact absurd hu (h.plain p hp)
    · cases hp

/-- **Every word is recognized.** -/
theorem recognized_tag {g : Grammar} (hg : g.lexicon = build t words) (v : Word) :
    (g.tag v).Recognized (build t words) := by
  unfold Grammar.tag
  simp only
  cases hlookup : g.lexicon.lookup? v.text with
  | none =>
    have hunknown : ∀ part, Tagged.Recognized (build t words) ⟨v, part, none⟩ := fun part =>
      ⟨fun i hi => Taxonomy.named_of_byMorphemes hi, fun hw => by cases hw⟩
    simp only
    split
    · exact hunknown _
    · exact hunknown _
  | some e =>
    rw [hg] at hlookup
    have hmem := Register.mem_keys_of_find? hlookup
    refine ⟨fun i hi => ?_, fun hw n hn => ?_⟩
    · simp only [Taxonomy.referent, taxonomy_build] at hi
      split at hi
      · rename_i hu
        obtain ⟨p, hp, hleaf, hname, hroot, hfind⟩ :=
          h.tree.find?_leafName (h.gloss_mem_leafNames hmem hu)
        simp only [hfind] at hi
        cases hi
        exact ⟨p, hp, hroot, rfl⟩
      · cases hi
    · simp only [Tagged.is_iff, Tagged.usage?, Option.map_some, Option.some.injEq] at hw hn
      exact ⟨_, hmem, hw, n, hn, rfl⟩

end Lexicon.Clear

/-! ## 2. Shapes -/

namespace Operation

/-- Edits of one ingredient, several times over only by a number that has a word. -/
inductive Phrased (lex : Lexicon) : Operation → Prop
  | once {x} (h : Simple lex.taxonomy x) : Phrased lex x
  | repeated {n : Nat} {x} (hn : 0 < n) (hw : lex.Counts n) (h : Simple lex.taxonomy x) :
      Phrased lex (repeated n x)

/-- Edits in a row that leans to the right. -/
inductive Chained (lex : Lexicon) : Operation → Prop
  | last {x} (h : Phrased lex x) : Chained lex x
  | compound {x y} (hx : Phrased lex x) (hy : Chained lex y) : Chained lex (compound x y)

/-- What sentences are understood as. -/
inductive Graspable (lex : Lexicon) : Operation → Prop
  | finish : Graspable lex finish
  | affirm : Graspable lex affirm
  | negate : Graspable lex negate
  | statement {x} (h : Chained lex x) : Graspable lex x
  | question {x} (h : Chained lex x) : Graspable lex x.question

variable {t : Taxonomy} {lex : Lexicon} {x : Operation}

theorem Simple.reverse (h : Simple t x) : Simple t x.reverse := by
  induction h with
  | add hi | addBefore hi _ | addAfter hi _ => exact .remove hi
  | remove hi => exact .add hi
  | removeAll hi => exact .ensure hi
  | ensure hi => exact .removeAll hi
  | persist _ ih => exact .persist ih

theorem Simple.modify (a : Adverb) (h : Simple t x) : Simple t (a.modify x) := by
  cases a with
  | ever => exact .persist h
  | negation => exact h.reverse

/-- An edit of one ingredient is asked about by asking for it. -/
theorem Simple.exists_question (h : Simple t x) : ∃ i, Named t i ∧ x.question = checkFor i := by
  induction h with
  | add hi | addBefore hi _ | addAfter hi _ | remove hi | removeAll hi | ensure hi =>
    exact ⟨_, hi, rfl⟩
  | persist _ ih => exact ih

theorem Phrased.exists_question (h : Phrased lex x) :
    ∃ i, Named lex.taxonomy i ∧ x.question = checkFor i := by
  cases h with
  | once h => exact h.exists_question
  | repeated _ _ h => exact h.exists_question

end Operation

/-! ## 3. What clauses are understood as -/

namespace Clause

open Operation

variable {R : Type} [Scalar R] {lex : Lexicon} {c : Clause}

/-- Whether the words of a clause are at home in a language. -/
structure Recognized (lex : Lexicon) (c : Clause) : Prop where
  noun : c.noun.Recognized lex
  anchor : ∀ anchor side, c.placement = some (anchor, side) → anchor.Recognized lex
  count : ∀ n, c.count = some n → 0 < n ∧ lex.Counts n

theorem count_of_readBody {count : Option Nat} {ts rest : List Tagged}
    (h : readBody count ts = .clause c rest) : c.count = count := by
  unfold readBody at h
  generalize readAdverbs ts = r at h
  obtain ⟨adverbs, us⟩ := r
  simp only at h
  split at h
  · cases h
    rfl
  · cases h

/-- Of recognized words, recognized clauses are read. -/
theorem recognized_of_read {ts rest : List Tagged} (hts : ∀ w ∈ ts, w.Recognized lex)
    (h : read ts = .clause c rest) : c.Recognized lex := by
  obtain ⟨⟨hnoun, -⟩, hanchor, -⟩ := nouns_of_read h
  refine ⟨hts _ hnoun, fun anchor side hp => hts _ (hanchor anchor side hp).1, fun n hn => ?_⟩
  rcases eq_of_read h with hbody | ⟨w, us, k, rfl, hw, hk, hbody⟩
  · rw [count_of_readBody hbody] at hn
    cases hn
  · rw [count_of_readBody hbody] at hn
    cases hn
    exact ⟨Nat.succ_pos k, (hts w List.mem_cons_self).number hw _ hk⟩

theorem recognized_of_readMore : ∀ (more : List Clause) (ts : List Tagged),
    (∀ w ∈ ts, w.Recognized lex) → (Outline.readMore ts).1 = more →
    ∀ c ∈ more, c.Recognized lex
  | [], _, _, _, _, hc => by cases hc
  | c :: more, ts, h, heq, d, hd => by
    rcases Outline.readMore_cases ts with
      hm | ⟨_, _, _, -, -, hm⟩ | ⟨w, us, e, left, rfl, -, hr, hm⟩ <;> rw [hm] at heq <;> cases heq
    have hus : ∀ v ∈ us, v.Recognized lex := fun v hv => h v (List.mem_cons_of_mem w hv)
    rcases List.mem_cons.mp hd with rfl | hd
    · exact recognized_of_read hus hr
    · exact recognized_of_readMore _ left (fun v hv => hus v ((nouns_of_read hr).2.2 hv)) rfl d hd

variable (skills : Language R)

theorem returns_understandPlaced (hc : c.Recognized lex) :
    Returns (c.understandPlaced lex.taxonomy skills) fun u => Simple lex.taxonomy u.1 := by
  unfold understandPlaced
  refine returns_bind (returns_ofExcept fun x hx => hx) fun x hx => ?_
  obtain ⟨i, hi, hcore⟩ := core_cases hx
  have hnamed := hc.noun.noun i hi
  have hsimple : Simple lex.taxonomy x := by
    rcases hcore with ⟨-, rfl⟩ | ⟨-, rfl⟩
    · exact .add hnamed
    · exact .ensure hnamed
  split
  · rename_i anchor side j r hplace
    refine returns_after fun caught => ?_
    split
    · refine returns_bind (returns_ofExcept fun a ha => ha) fun a ha => returns_pure ?_
      have hanchor := (hc.anchor anchor side hplace).noun a ha
      have hj : Named lex.taxonomy j := by
        rcases hcore with ⟨-, heq⟩ | ⟨-, heq⟩ <;> cases heq
        exact hnamed
      cases side with
      | before => exact .addBefore hj hanchor
      | after => exact .addAfter hj hanchor
    · exact returns_pure hsimple
  · exact returns_pure hsimple

theorem returns_understandAdverbs {t : Taxonomy} {inner : Luck R (Understood R)}
    (h : Returns inner fun u => Simple t u.1) : ∀ adverbs : List Adverb,
    Returns (understandAdverbs skills inner adverbs) fun u => Simple t u.1
  | [] => h
  | a :: rest => by
    unfold understandAdverbs
    refine returns_bind (returns_understandAdverbs h rest) fun u hu => ?_
    refine returns_after fun caught => ?_
    split
    · exact returns_pure (hu.modify a)
    · exact returns_pure hu

/-- **A clause** is understood as edits of one ingredient. -/
theorem returns_understand (hc : c.Recognized lex) :
    Returns (c.understand lex.taxonomy skills) fun u => Phrased lex u.1 := by
  unfold understand
  refine returns_bind (returns_understandAdverbs skills (returns_understandPlaced skills hc) _)
    fun u hu => ?_
  obtain ⟨x, used⟩ := u
  cases hcount : c.count with
  | none => exact returns_pure (.once hu)
  | some n =>
    obtain ⟨hn, hw⟩ := hc.count n hcount
    refine returns_after fun caught => ?_
    split
    · exact returns_pure (.repeated hn hw hu)
    · exact returns_pure (.once hu)

/-- **A chain of clauses** is understood as edits in a row. -/
theorem returns_understandChain (ending : Ending) : ∀ (c : Clause) (more : List Clause),
    (∀ d ∈ c :: more, d.Recognized lex) →
    Returns (understandChain lex.taxonomy skills ending c more) fun u => Chained lex u.1
  | c, [], h => by
    unfold understandChain
    refine returns_bind (returns_understand skills (h c List.mem_cons_self)) fun u hu => ?_
    cases ending with
    | rest rest => exact returns_pure (.last hu)
    | unreadable cause => exact fun _ => True.intro
  | c, d :: more, h => by
    unfold understandChain
    refine returns_bind (returns_understand skills (h c List.mem_cons_self)) fun u hu => ?_
    have hlater : ∀ e ∈ d :: more, e.Recognized lex := fun e he => h e (List.mem_cons_of_mem c he)
    refine returns_bind (returns_understandChain ending d more hlater) fun v hv => ?_
    refine returns_after fun caught => ?_
    split
    · exact returns_pure (.compound hu hv)
    · exact returns_pure hv

end Clause

/-! ## 4. What texts are understood as -/

namespace Sentence

open Operation

variable {R : Type} [Scalar R] {lex : Lexicon} {ts : List Tagged} (skills : Language R)

theorem returns_understandAll (h : ∀ w ∈ ts, w.Recognized lex) :
    Returns (understandAll lex.taxonomy skills ts) fun u => ∀ v ∈ u, Chained lex v.1 := by
  unfold understandAll
  split
  · exact returns_pure (by simp)
  · exact fun _ => True.intro
  · rename_i o hread
    have hclauses : ∀ d ∈ o.first :: o.more, d.Recognized lex := by
      unfold Outline.read at hread
      split at hread
      · rename_i c left hclause
        cases hread
        intro d hd
        rcases List.mem_cons.mp hd with rfl | hd
        · exact Clause.recognized_of_read h hclause
        · exact Clause.recognized_of_readMore _ left
            (fun w hw => h w ((Clause.nouns_of_read hclause).2.2 hw)) rfl d hd
      · cases hread
      · cases hread
    refine returns_bind (Clause.returns_understandChain skills o.ending o.first o.more hclauses)
      fun u hu => returns_pure fun v hv => ?_
    split at hv
    · cases hv
      exact hu
    · cases hv

/-- **A sentence of recognized words** is understood in one of the shapes. -/
theorem returns_understand (h : ∀ w ∈ ts, w.Recognized lex) :
    Returns (understand lex.taxonomy skills ts) fun u => ∀ v ∈ u, Graspable lex v.1 := by
  cases ts with
  | nil => exact returns_pure (by simp)
  | cons w rest =>
    by_cases ha : Alone w rest
    · obtain ⟨rfl, x, hx⟩ := ha
      have hgrasp : Graspable lex x := by
        unfold single? at hx
        split at hx <;> cases hx
        · exact .finish
        · exact .affirm
        · exact .negate
      simp only [understand, hx]
      exact returns_pure fun v hv => by
        cases hv
        exact hgrasp
    · rw [understand_of_not_alone ha]
      split
      · have hrest : ∀ v ∈ rest, v.Recognized lex := fun v hv => h v (List.mem_cons_of_mem w hv)
        refine returns_bind (returns_understandAll skills hrest) fun u hu => returns_pure ?_
        intro v hv
        obtain ⟨v', hv', rfl⟩ := Option.mem_map.mp hv
        exact .question (hu v' hv')
      · exact fun m => (returns_understandAll skills h m).imp
          fun u _ hu v hv => .statement (hu v hv)

end Sentence

namespace Grammar

open Operation

variable {R : Type} [Scalar R] {g : Grammar} {post : Operation → Prop}

/-- What is understood of some words, is understood at an attempt at them. -/
theorem returns_tryOnce {ws : List Word}
    (h : Returns (g.sentence (g.annotate ws) : Act (Mind R) _) fun u => ∀ v ∈ u, post v.1) :
    Returns (g.tryOnce false ws : Act (Mind R) _) fun o => ∀ p ∈ o, post p.2.1 := by
  unfold tryOnce
  simp only [Bool.false_eq_true, if_false, pure_bind]
  refine returns_bind (returns_attempt h) fun r hr => ?_
  cases r with
  | ok u =>
    refine returns_pure fun p hp => ?_
    obtain ⟨v, hv, rfl⟩ := Option.mem_map.mp hp
    exact hr u rfl v hv
  | error e =>
    simp only
    split
    · exact returns_pure (by simp)
    · exact fun _ => True.intro

/-- It is understood at any number of attempts. -/
theorem returns_tryAgain {ws : List Word}
    (h : Returns (g.sentence (g.annotate ws) : Act (Mind R) _) fun u => ∀ v ∈ u, post v.1) :
    ∀ attempt remaining : Nat, Returns (g.tryAgain false ws attempt remaining : Act (Mind R) _)
      fun o => ∀ r ∈ o, post r.operation
  | _, 0 => returns_pure (by simp)
  | attempt, remaining + 1 => by
    unfold tryAgain
    refine returns_bind (returns_tryOnce h) fun o ho => ?_
    cases o with
    | some p =>
      refine returns_pure fun r hr => ?_
      cases hr
      exact ho p rfl
    | none => exact returns_tryAgain h (attempt + 1) remaining

/-- **What is understood of looked-up words is understood of any text.** -/
theorem returns_parse
    (h : ∀ ws, Returns (g.sentence (g.annotate ws) : Act (Mind R) _) fun u => ∀ v ∈ u, post v.1)
    (text : String) :
    Returns (g.parse false text : Act (Mind R) _) fun r => post r.operation := by
  unfold parse
  split
  · exact fun _ => True.intro
  · refine returns_bind (returns_tryAgain (h _) 1 _) fun o ho => ?_
    cases o with
    | some r => exact returns_pure (ho r rfl)
    | none => exact fun _ => True.intro

/-- **In a clear language any text** is understood in one of the shapes, or not at all. -/
theorem returns_parse_graspable {t : Taxonomy} {words : List (String × Entry)}
    (h : Lexicon.Clear t words) (hg : g.lexicon = Lexicon.build t words) (text : String) :
    Returns (g.parse false text : Act (Mind R) _) fun r => Graspable g.lexicon r.operation := by
  refine returns_parse (fun ws => ?_) text
  have hws : ∀ w ∈ g.annotate ws, w.Recognized g.lexicon := by
    intro w hw
    obtain ⟨v, -, rfl⟩ := List.mem_map.mp hw
    rw [hg]
    exact h.recognized_tag hg v
  unfold sentence Mind.lucky
  exact returns_after fun m => returns_on (Sentence.returns_understand _ hws)

end Grammar

end DeliTalk
