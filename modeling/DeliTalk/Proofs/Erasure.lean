import DeliTalk.Proofs.RoundTrip

/-!
# What a listener misses is erased

A derivation means an operation. A listener rolls once for each construct of it, and what it
understands is the meaning of the derivation that is left once the missed constructs are erased.
Where a conjunction is missed, everything before it goes with it.

* `Derivation.Sentence.meaning`, `constructs`: what a derivation means, and the skills it is
  rolled for.
* `Derivation.Sentence.erased`: what is left of a derivation.
* `Language.Counts`: a report that counts uses of skills.
* `Derivation.Conjoined.meaning_erased`, `count_erased`: the clauses that survive.
* `Grammar.sentence_erased`: any sentence, for any outcomes.
-/

namespace DeliTalk

/-! ## 1. Meanings -/

/-- The ingredient a noun refers to; the root stands in for none. -/
def Taxonomy.named (t : Taxonomy) (noun : Tagged) : Ingredient :=
  match t.referent noun with
  | .ok i => i
  | .error _ => t.root

theorem Taxonomy.referent_eq_named {t : Taxonomy} {w : Tagged} (h : ∃ i, t.referent w = .ok i) :
    t.referent w = .ok (t.named w) := by
  obtain ⟨i, hi⟩ := h
  unfold named
  rw [hi]

namespace Derivation

/-- Whether the verb is one of desire. Else it is one of possession. -/
def Core.desires (c : Core) : Bool := c.verb.is .desire

/-- The side a preposition stands for. -/
def sideOf (preposition : Tagged) : Side := if preposition.is .before then .before else .after

/-- Something to be added, or something to be there. -/
def Core.meaning (t : Taxonomy) (c : Core) : Operation :=
  if c.desires then .add (t.named c.noun) .top else .ensure (t.named c.noun)

/-- Only something to be added has a place. -/
def Positional.meaning (t : Taxonomy) : Positional → Operation
  | bare core => core.meaning t
  | placed anchor preposition _ _ core =>
    if core.desires then
      .add (t.named core.noun) ((sideOf preposition).relative (t.named anchor))
    else core.meaning t

/-- For ever, or the opposite. -/
def Adverbial.meaning (t : Taxonomy) : Adverbial → Operation
  | bare inner => inner.meaning t
  | adverb word _ inner =>
    if word.is .ever then .persist (inner.meaning t) else (inner.meaning t).reverse

/-- So many times. -/
def Numbered.meaning (t : Taxonomy) : Numbered → Operation
  | bare inner => inner.meaning t
  | number _ value _ _ _ inner => .repeated value (inner.meaning t)

/-- One clause and then the others. -/
def Conjoined.meaning (t : Taxonomy) : Conjoined → Operation
  | last clause => clause.meaning t
  | and clause _ _ rest => .compound (clause.meaning t) (rest.meaning t)

/-- A greeting, a yes or a no; or clauses, which a question word turns into a question. -/
def Sentence.meaning (t : Taxonomy) : Sentence → Operation
  | single word _ =>
    if word.is .greeting then .finish else if word.is .affirmation then .affirm else .negate
  | question _ _ rest => (rest.meaning t).question
  | statement clauses => clauses.meaning t

/-! ## 2. Constructs -/

/-- The skills a place is rolled for: none in front of a verb of possession. -/
def Positional.constructs : Positional → List Skill
  | bare _ => []
  | placed _ _ _ _ core => if core.desires then [.adposition] else []

/-- The skills that are rolled for up to the adverbs, from the inside out. -/
def Adverbial.constructs : Adverbial → List Skill
  | bare inner => inner.constructs
  | adverb _ _ inner => inner.constructs ++ [.adverbs]

/-- The skills that are rolled for in a clause. -/
def Numbered.constructs : Numbered → List Skill
  | bare inner => inner.constructs
  | number _ _ _ _ _ inner => inner.constructs ++ [.numbers]

/-- The skills that are rolled for in all clauses, and then for the conjunctions. -/
def Conjoined.constructs : Conjoined → List Skill
  | last clause => clause.constructs
  | and clause _ _ rest => clause.constructs ++ rest.constructs ++ [.conjunction]

/-- The clauses of a sentence that is more than a single word. -/
def Sentence.clauses? : Sentence → Option Conjoined
  | single _ _ => none
  | question _ _ rest => some rest
  | statement clauses => some clauses

/-- The skills that are rolled for in a sentence, one after the other. -/
def Sentence.constructs (d : Sentence) : List Skill := (d.clauses?.map (·.constructs)).getD []

/-! ## 3. Erasure -/

/-- What is left of a place in front of a core. A roll is made only for something to be added. -/
def Positional.erased (ear : Outcomes) : Positional → Positional
  | bare core => bare core
  | placed anchor preposition isNoun isSide core =>
    if core.desires && ear 0 .adposition then placed anchor preposition isNoun isSide core
    else bare core

/-- What is left of adverbs: those whose roll succeeded. -/
def Adverbial.erased (ear : Outcomes) : Adverbial → Adverbial
  | bare inner => bare (inner.erased ear)
  | adverb word isAdverb inner =>
    if ear inner.constructs.length .adverbs then adverb word isAdverb (inner.erased ear)
    else inner.erased ear

/-- What is left of a clause. -/
def Numbered.erased (ear : Outcomes) : Numbered → Numbered
  | bare inner => bare (inner.erased ear)
  | number word value isNumber reads nonzero inner =>
    if ear inner.constructs.length .numbers then
      number word value isNumber reads nonzero (inner.erased ear)
    else bare (inner.erased ear)

/-- What is left of several clauses: where a conjunction is missed, only what follows it. -/
def Conjoined.erased (ear : Outcomes) : Conjoined → Conjoined
  | last clause => last (clause.erased ear)
  | and clause word isConjunction rest =>
    let left := rest.erased (ear.later clause.constructs.length)
    if ear (clause.constructs.length + rest.constructs.length) .conjunction then
      and (clause.erased ear) word isConjunction left
    else left

/-- What a question word makes of an operation. -/
def Sentence.posed : Sentence → Operation → Operation
  | question _ _ _, x => x.question
  | _, x => x

/-- What is left of a sentence. A single word or a question word is never missed. -/
def Sentence.erased (ear : Outcomes) : Sentence → Sentence
  | single word h => single word h
  | question word isQuestion rest => question word isQuestion (rest.erased ear)
  | statement clauses => statement (clauses.erased ear)

/-- The clauses that survive, in spoken order, each with the outcomes from its own first roll on:
those whose conjunction was caught. -/
def Conjoined.kept (ear : Outcomes) : Conjoined → List (Numbered × Outcomes)
  | last _ => []
  | and clause _ _ rest =>
    let more := rest.kept (ear.later clause.constructs.length)
    if ear (clause.constructs.length + rest.constructs.length) .conjunction then
      (clause, ear) :: more
    else more

/-- The last clause, which always survives, with the outcomes from its own first roll on. -/
def Conjoined.final (ear : Outcomes) : Conjoined → Numbered × Outcomes
  | last clause => (clause, ear)
  | and clause _ _ rest => rest.final (ear.later clause.constructs.length)

end Derivation

/-- The skills whose rolls succeed, of those that are rolled for one after the other. -/
def Outcomes.caught (ear : Outcomes) : List Skill → List Skill
  | [] => []
  | s :: rest =>
    if ear 0 s then s :: caught (ear.later 1) rest else caught (ear.later 1) rest

/-- One more roll behind the others. -/
theorem Outcomes.caught_append (s : Skill) : ∀ (rolls : List Skill) (ear : Outcomes),
    ear.caught (rolls ++ [s]) =
      if ear rolls.length s then ear.caught rolls ++ [s] else ear.caught rolls
  | [], ear => by
    simp only [List.nil_append, caught, List.length_nil]
  | r :: rest, ear => by
    have ih := caught_append s rest (ear.later 1)
    have hindex : ear.later 1 rest.length s = ear (r :: rest).length s := by
      simp only [later, List.length_cons, Nat.add_comm]
    rw [hindex] at ih
    simp only [List.cons_append, caught, ih]
    split <;> split <;> rfl

namespace Derivation

/-! ## 4. What survives -/

variable {t : Taxonomy}

theorem Positional.constructs_erased (ear : Outcomes) (p : Positional) :
    (p.erased ear).constructs = ear.caught p.constructs := by
  cases p with
  | bare core => rfl
  | placed anchor preposition _ _ core =>
    simp only [erased, constructs]
    cases hd : core.desires <;> cases hr : ear 0 .adposition <;>
      simp [Outcomes.caught, hd, hr]

theorem Adverbial.constructs_erased (ear : Outcomes) : ∀ a : Adverbial,
    (a.erased ear).constructs = ear.caught a.constructs
  | bare p => p.constructs_erased ear
  | adverb word _ inner => by
    have ih := constructs_erased ear inner
    simp only [erased, constructs, Outcomes.caught_append]
    split
    · simp only [constructs, ih]
    · exact ih

/-- **What is left of a clause** are the constructs whose rolls succeeded. -/
theorem Numbered.constructs_erased (ear : Outcomes) (n : Numbered) :
    (n.erased ear).constructs = ear.caught n.constructs := by
  cases n with
  | bare a => exact a.constructs_erased ear
  | number word value isNumber reads nonzero a =>
    have hinner := a.constructs_erased ear
    have hrolls : (number word value isNumber reads nonzero a).constructs =
        a.constructs ++ [.numbers] := rfl
    rw [hrolls, Outcomes.caught_append]
    simp only [erased]
    split
    · exact congrArg (· ++ [.numbers]) hinner
    · exact hinner

/-- **The clauses that survive are joined to the right**, in spoken order. -/
theorem Conjoined.meaning_erased : ∀ (c : Conjoined) (ear : Outcomes),
    (c.erased ear).meaning t =
      ((c.kept ear).map fun x => (x.1.erased x.2).meaning t).foldr .compound
        (((c.final ear).1.erased (c.final ear).2).meaning t)
  | last n, ear => rfl
  | and n _ _ c, ear => by
    have ih := meaning_erased c (ear.later n.constructs.length)
    simp only [erased, kept, final]
    split
    · simp only [meaning, List.map_cons, List.foldr_cons, ih]
    · exact ih

/-- **What is left of several clauses**: the rolls that succeeded inside the clauses that survive,
and one conjunction between any two of them. -/
theorem Conjoined.count_erased (s : Skill) : ∀ (c : Conjoined) (ear : Outcomes),
    (c.erased ear).constructs.count s =
      ((c.kept ear ++ [c.final ear]).flatMap fun x => x.2.caught x.1.constructs).count s +
        if s = .conjunction then (c.kept ear).length else 0
  | last n, ear => by
    simp [erased, kept, final, constructs, n.constructs_erased ear]
  | and n _ _ c, ear => by
    have ih := count_erased s c (ear.later n.constructs.length)
    simp only [erased, kept, final]
    split
    · simp only [constructs, List.count_append, ih, n.constructs_erased ear, List.cons_append,
        List.flatMap_cons, List.length_cons]
      by_cases hs : s = .conjunction
      · subst hs
        simp only [if_true, List.count_singleton_self]
        omega
      · have hne : Skill.conjunction ≠ s := fun h => hs h.symm
        simp only [if_neg hs, List.count_singleton, beq_eq_false_iff_ne.mpr hne,
          Bool.false_eq_true, if_false]
        omega
    · exact ih

/-- What is left of a sentence are its clauses that are left. -/
theorem Sentence.clauses?_erased {d : Sentence} {c : Conjoined} (h : d.clauses? = some c)
    (ear : Outcomes) : (d.erased ear).clauses? = some (c.erased ear) := by
  cases d <;> cases h <;> rfl

theorem Sentence.posed_erased (d : Sentence) (ear : Outcomes) (x : Operation) :
    (d.erased ear).posed x = d.posed x := by
  cases d <;> rfl

theorem Sentence.meaning_eq_posed {d : Sentence} {c : Conjoined} (h : d.clauses? = some c) :
    d.meaning t = d.posed (c.meaning t) := by
  cases d <;> cases h <;> rfl

end Derivation

/-! ## 5. Reports -/

variable {R : Type} [Scalar R]

/-- A report that counts some uses of skills: it is put together from single uses. -/
inductive Language.Counts : Language R → List Skill → Prop where
  | none : Counts .unused []
  | use {l : Language R} {ss : List Skill} (h : Counts l ss) (s : Skill) :
      Counts (l + .once s) (ss ++ [s])
  | join {l m : Language R} {ss ts : List Skill} (h : Counts l ss) (h' : Counts m ts) :
      Counts (l + m) (ss ++ ts)

/-- Over the real numbers, a report says for each skill how often it was used. -/
theorem Language.Counts.get_eq {l : Language ℝ} {ss : List Skill} (h : l.Counts ss) (s : Skill) :
    l.get s = (ss.count s : ℝ) := by
  have honce : ∀ s', (Language.once s' : Language ℝ).get s = ([s'].count s : ℝ) := by
    intro s'
    cases s <;> cases s' <;> simp [once, set, unused, uniform, get]
  induction h with
  | none => rw [get_unused, List.count_nil, Nat.cast_zero]
  | use h s' ih => rw [get_add, ih, honce, List.count_append, Nat.cast_add]
  | join h h' ih ih' => rw [get_add, ih, ih', List.count_append, Nat.cast_add]

/-- Whether what is understood is an operation, with one use reported for each of some skills. -/
structure Conveys (u : Understood R) (x : Operation) (uses : List Skill) : Prop where
  operation : u.1 = x
  report : u.2.Counts uses

namespace Derivation

variable {t : Taxonomy}

/-- Whether every noun among some words refers to an ingredient. -/
def NounsRefer (t : Taxonomy) (ts : List Tagged) : Prop :=
  ∀ w ∈ ts, w.isNoun = true → ∃ i, t.referent w = .ok i

theorem NounsRefer.mono {ts us : List Tagged} (h : NounsRefer t ts) (hsub : us ⊆ ts) :
    NounsRefer t us :=
  fun w hw => h w (hsub hw)

theorem NounsRefer.plain {ts : List Tagged} (h : NounsRefer t ts) : Plain ts := by
  intro w hw hn
  obtain ⟨i, hi⟩ := h w hw hn
  exact Taxonomy.plain_of_referent hi

/-! ## 6. What is heard of a derivation -/

/-- The place in front of something to be added. -/
def Positional.place (t : Taxonomy) : Positional → Option Relative
  | bare _ => none
  | placed anchor preposition _ _ core =>
    if core.desires then some ((sideOf preposition).relative (t.named anchor)) else none

/-- The gist of a clause. -/
def Numbered.gist (t : Taxonomy) (n : Numbered) : Gist :=
  let p := n.adverbial.positional
  ⟨n.count, n.adverbial.adverbs, p.place t, p.core.meaning t⟩

theorem Core.clause_core {c : Clause} {k : Core} (hn : c.noun = k.noun) (hv : c.verb = k.verb)
    (h : ∃ i, t.referent k.noun = .ok i) : c.core t = .ok (k.meaning t) := by
  unfold Clause.core Core.meaning Core.desires
  rw [hn, hv, Taxonomy.referent_eq_named h]
  rcases k.acts with ha | ha
  · have hu := Tagged.is_iff.mp ha
    simp only [hu, ha, if_true]
  · have hu := Tagged.is_iff.mp ha
    simp [hu, Tagged.is]

theorem Core.meaning_of_desires {k : Core} (h : k.desires = true) :
    k.meaning t = .add (t.named k.noun) .top := if_pos h

theorem Core.meaning_of_not_desires {k : Core} (h : ¬ k.desires = true) :
    k.meaning t = .ensure (t.named k.noun) := if_neg h

/-- The side a preposition names is the one it stands for. -/
theorem side_eq {w : Tagged} (h : w.is .before = true ∨ w.is .after = true) :
    Side.of? w = some (sideOf w) := by
  unfold Side.of? sideOf
  rcases h with h | h <;> simp [Tagged.is, Tagged.is_iff.mp h]

/-- An adverb does what its word says. -/
theorem modify_eq {w : Tagged} {x : Adverb} (h : Adverb.of? w = some x) (y : Operation) :
    x.modify y = if w.is .ever then .persist y else y.reverse := by
  unfold Adverb.of? at h
  split at h
  · rename_i hu
    cases h
    rw [if_pos (Tagged.is_iff.mpr hu)]
    rfl
  · rename_i hu
    cases h
    rw [if_neg (by simp [Tagged.is, hu])]
    rfl
  · cases h

/-- **A clause means its gist.** -/
theorem Numbered.means_gist {n : Numbered} (h : NounsRefer t n.words) :
    n.clause.Means t (n.gist t) := by
  have hread := read_words (h.plain _ n.head_mem.1 n.head_mem.2) []
  rw [List.append_nil] at hread
  obtain ⟨⟨hmem, hnoun⟩, hanchor, -⟩ := Clause.nouns_of_read hread
  refine ⟨rfl, rfl, Core.clause_core rfl rfl (h _ hmem hnoun), ?_⟩
  have hplacement : n.clause.placement = n.adverbial.positional.placement := rfl
  rw [hplacement] at hanchor ⊢
  simp only [gist]
  cases hp : n.adverbial.positional with
  | bare core =>
    simp only [Positional.placement, Positional.place]
  | placed anchor preposition _ hside core =>
    have hplaced : (Positional.placed anchor preposition ‹_› hside core).placement =
        some (anchor, sideOf preposition) := by
      rw [Positional.placement, side_eq hside]
      rfl
    have hcore : (Positional.placed anchor preposition ‹_› hside core).core = core := rfl
    rw [hp, hplaced] at hanchor
    have hrefers := Taxonomy.referent_eq_named (h _ (hanchor _ _ rfl).1 (hanchor _ _ rfl).2)
    rw [hplaced, hcore]
    simp only [Positional.place]
    by_cases hd : core.desires = true
    · rw [core.meaning_of_desires hd, if_pos hd]
      exact ⟨_, hrefers, rfl⟩
    · rw [core.meaning_of_not_desires hd, if_neg hd]

/-- One more adverb in front of a clause. -/
theorem gist_adverb {w : Tagged} {h : w.is .ever = true ∨ w.is .negation = true} {x : Adverb}
    (hx : Adverb.of? w = some x) (a : Adverbial) :
    (Numbered.bare (.adverb w h a)).gist t =
      { (Numbered.bare a).gist t with adverbs := x :: ((Numbered.bare a).gist t).adverbs } := by
  simp only [Numbered.gist, Numbered.adverbial, Adverbial.adverbs, Adverbial.positional, hx,
    Option.toList_some, List.singleton_append, Numbered.count]

/-- **The rolls for a gist** are those for the constructs. -/
theorem Numbered.rolls_gist (n : Numbered) : (n.gist t).rolls = n.constructs := by
  have hbare : ∀ a : Adverbial, ((Numbered.bare a).gist t).rolls = a.constructs := by
    intro a
    induction a with
    | bare p =>
      cases p with
      | bare core => rfl
      | placed anchor preposition _ _ core =>
        by_cases hd : core.desires = true <;>
          simp [gist, adverbial, Adverbial.positional, Positional.place, Gist.rolls, count,
            Adverbial.adverbs, Adverbial.constructs, Positional.constructs, hd]
    | adverb w isAdverb a ih =>
      obtain ⟨x, hx⟩ := exists_adverb isAdverb
      rw [gist_adverb hx, Gist.rolls_adverb rfl, ih]
      rfl
  cases n with
  | bare a => exact hbare a
  | number w value _ _ _ a =>
    have hgist : (number w value ‹_› ‹_› ‹_› a).gist t =
        { (bare a).gist t with count := some value } := rfl
    rw [hgist, Gist.rolls_count rfl, hbare a]
    rfl

theorem Numbered.draws_gist (n : Numbered) : (n.gist t).draws = n.constructs.length := by
  rw [← Gist.length_rolls, n.rolls_gist]

/-- What is heard of a core and its place. -/
theorem Positional.conveys (ear : Outcomes) (p : Positional) :
    Conveys (((Numbered.bare (.bare p)).gist t).heard ear : Understood R) ((p.erased ear).meaning t)
      (p.erased ear).constructs := by
  have hheard : (((Numbered.bare (.bare p)).gist t).heard ear : Understood R) =
      Gist.heardPlaced ⟨none, [], p.place t, p.core.meaning t⟩ ear := rfl
  rw [hheard]
  cases p with
  | bare core => exact ⟨rfl, .none⟩
  | placed anchor preposition _ _ core =>
    by_cases hd : core.desires = true
    · by_cases hr : ear 0 .adposition = true
      · simp only [Gist.heardPlaced, place, Positional.core, Core.meaning, erased, hd, hr, if_true,
          Bool.and_self, meaning, constructs]
        exact ⟨rfl, .use .none _⟩
      · simp only [Gist.heardPlaced, place, Positional.core, Core.meaning, erased, hd, hr, if_true,
          if_false, Bool.and_false, Bool.false_eq_true, meaning, constructs]
        exact ⟨rfl, .none⟩
    · simp only [Gist.heardPlaced, place, Positional.core, Core.meaning, erased, hd, if_false,
        Bool.false_and, Bool.false_eq_true, meaning, constructs]
      exact ⟨rfl, .none⟩

/-- What is heard up to the adverbs, the innermost first. -/
theorem Adverbial.conveys (ear : Outcomes) : ∀ a : Adverbial,
    Conveys (((Numbered.bare a).gist t).heard ear : Understood R) ((a.erased ear).meaning t)
      (a.erased ear).constructs
  | bare p => p.conveys ear
  | adverb w isAdverb a => by
    have ih := conveys ear a
    have hdraws : ((Numbered.bare a).gist t).draws = a.constructs.length :=
      (Numbered.bare a).draws_gist
    obtain ⟨x, hx⟩ := exists_adverb isAdverb
    rw [gist_adverb hx, Gist.heard_adverb rfl, hdraws]
    simp only [erased]
    by_cases hr : ear a.constructs.length .adverbs = true
    · rw [if_pos hr, if_pos hr]
      refine ⟨?_, .use ih.report _⟩
      simp only [meaning, modify_eq hx, ih.operation]
    · rw [if_neg hr, if_neg hr]
      exact ih

/-- **What is heard of a clause** is what is left of it. -/
theorem Numbered.conveys (ear : Outcomes) (n : Numbered) :
    Conveys ((n.gist t).heard ear : Understood R) ((n.erased ear).meaning t)
      (n.erased ear).constructs := by
  cases n with
  | bare a => exact a.conveys ear
  | number w value _ _ _ a =>
    have hinner := a.conveys (R := R) (t := t) ear
    have hdraws : ((bare a).gist t).draws = a.constructs.length := (bare a).draws_gist
    have hgist : (number w value ‹_› ‹_› ‹_› a).gist t =
        { (bare a).gist t with count := some value } := rfl
    rw [hgist, Gist.heard_count rfl, hdraws]
    simp only [erased]
    by_cases hr : ear a.constructs.length .numbers = true
    · rw [if_pos hr, if_pos hr]
      refine ⟨?_, .use hinner.report _⟩
      simp only [meaning, hinner.operation]
    · rw [if_neg hr, if_neg hr]
      exact hinner

/-- The gists of a chain of clauses, the first one apart. -/
def Conjoined.gists (t : Taxonomy) : Conjoined → Gist × List Gist
  | last n => (n.gist t, [])
  | and n _ _ c => (n.gist t, (c.gists t).1 :: (c.gists t).2)

/-- **Clauses mean their gists.** -/
theorem Conjoined.means_gists : ∀ {c : Conjoined}, NounsRefer t c.words →
    c.first.Means t (c.gists t).1 ∧ List.Forall₂ (Clause.Means t) c.more (c.gists t).2
  | last n, h => ⟨n.means_gist h, .nil⟩
  | and n w _ c, h => by
    have hrest := means_gists (c := c) (h.mono fun v hv => by simp [words, hv])
    exact ⟨n.means_gist (h.mono fun v hv => by simp [words, hv]), .cons hrest.1 hrest.2⟩

theorem Conjoined.draws_gists : ∀ c : Conjoined,
    Gist.chainDraws (c.gists t).1 (c.gists t).2 = c.constructs.length
  | last n => n.draws_gist
  | and n w _ c => by
    simp only [gists, Gist.chainDraws, n.draws_gist, draws_gists c, constructs, List.length_append,
      List.length_singleton]

/-- **What is heard of several clauses** is what is left of them. -/
theorem Conjoined.conveys : ∀ (c : Conjoined) (ear : Outcomes),
    Conveys (Gist.heardChain ear (c.gists t).1 (c.gists t).2 : Understood R)
      ((c.erased ear).meaning t) (c.erased ear).constructs
  | last n, ear => n.conveys ear
  | and n w _ c, ear => by
    have hfirst := n.conveys (R := R) (t := t) ear
    have hrest := conveys c (ear.later n.constructs.length)
    simp only [gists, Gist.heardChain, n.draws_gist, c.draws_gists, erased]
    by_cases hr : ear (n.constructs.length + c.constructs.length) .conjunction = true
    · rw [if_pos hr, if_pos hr]
      refine ⟨?_, .use (.join hfirst.report hrest.report) _⟩
      simp only [meaning, hfirst.operation, hrest.operation]
    · rw [if_neg hr, if_neg hr]
      exact ⟨hrest.operation, hrest.report⟩

end Derivation

/-! ## 7. Sentences -/

namespace Sentence

variable {t : Taxonomy}

open DeliTalk.Derivation

/-- **A sentence that derives is understood as what is left of it**, after one roll for each
construct. -/
theorem perform_understand {d : Derivation.Sentence} (h : NounsRefer t d.words)
    (skills : Language R) (chance : Chance R) :
    ∃ u : Understood R, (understand t skills d.words).perform chance =
        (.ok (some u), chance.after d.constructs.length) ∧
      Conveys u ((d.erased (skills.catches chance)).meaning t)
        (d.erased (skills.catches chance)).constructs := by
  cases d with
  | single w hw =>
    obtain ⟨x, hx⟩ : ∃ x, single? w = some x :=
      Option.ne_none_iff_exists'.mp fun hnone => single?_eq_none.mp hnone hw
    refine ⟨(x, .unused), ?_, ?_, .none⟩
    · simp only [Derivation.Sentence.words, understand, hx]
      rfl
    · unfold single? at hx
      simp only [Derivation.Sentence.erased, Derivation.Sentence.meaning]
      split at hx <;> cases hx <;> simp_all [Tagged.is]
  | question w hw c =>
    have hc : NounsRefer t c.words := h.mono (List.subset_cons_self w c.words)
    obtain ⟨hfirst, hmore⟩ := Conjoined.means_gists hc
    have hperform := perform_question (Conjoined.plain_heads hc.plain) hfirst hmore skills chance hw
    have hconveys := c.conveys (R := R) (t := t) (skills.catches chance)
    rw [Conjoined.draws_gists] at hperform
    refine ⟨_, hperform, ?_, hconveys.report⟩
    simp only [Derivation.Sentence.erased, Derivation.Sentence.meaning, hconveys.operation]
  | statement c =>
    obtain ⟨hfirst, hmore⟩ := Conjoined.means_gists (c := c) h
    have hperform := perform_statement (Conjoined.plain_heads (c := c) h.plain) hfirst hmore skills
      chance
    rw [Conjoined.draws_gists] at hperform
    exact ⟨_, hperform, c.conveys (skills.catches chance)⟩

end Sentence

namespace Grammar

open DeliTalk.Derivation

/-- **Whatever is missed is erased, and nothing else.** Of a sentence that derives, a listener
understands the meaning of what is left of it, and reports one use for each construct that is left.
What is left of clauses are those whose conjunction was caught and the last one, joined to the
right, behind a question word as a question; the constructs left are those whose rolls succeeded
inside these clauses, and the conjunctions between them. -/
theorem sentence_erased (g : Grammar) {d : Derivation.Sentence}
    (h : NounsRefer g.lexicon.taxonomy d.words) (m : Mind R) :
    ∃ (u : Understood R) (ear : Outcomes), ear = m.personality.language.catches m.chance ∧
      (g.sentence d.words).perform m =
        (.ok (some u), { m with chance := m.chance.after d.constructs.length }) ∧
      Conveys u ((d.erased ear).meaning g.lexicon.taxonomy) (d.erased ear).constructs ∧
      ∀ c ∈ d.clauses?,
        u.1 = d.posed (((c.kept ear).map fun x =>
          (x.1.erased x.2).meaning g.lexicon.taxonomy).foldr .compound
            (((c.final ear).1.erased (c.final ear).2).meaning g.lexicon.taxonomy)) ∧
        ∀ s, (d.erased ear).constructs.count s =
          ((c.kept ear ++ [c.final ear]).flatMap fun x => x.2.caught x.1.constructs).count s +
            if s = .conjunction then (c.kept ear).length else 0 := by
  obtain ⟨u, hu, hconveys⟩ := Sentence.perform_understand h m.personality.language m.chance
  refine ⟨u, _, rfl, perform_sentence hu, hconveys, fun c hc => ?_⟩
  have herased := Sentence.clauses?_erased hc (m.personality.language.catches m.chance)
  rw [hconveys.operation, Sentence.meaning_eq_posed herased, Sentence.posed_erased,
    Conjoined.meaning_erased, Sentence.constructs, herased]
  exact ⟨rfl, fun s => c.count_erased s _⟩

namespace House

/-- A noun of the house that is not listed; the first syllable is the root's. -/
def noun (syllables : List Syllable) : Tagged :=
  ⟨⟨.consonantFirst .s .a :: syllables⟩, some .noun, none⟩

/-- A word of the house that is listed. -/
def word (syllable : Syllable) (part : Part) (usage : Usage) (gloss : String) : Tagged :=
  ⟨⟨[syllable]⟩, some part, some ⟨usage, part, gloss⟩⟩

/-- Wanting something. -/
def want (syllables : List Syllable) : Derivation.Core :=
  ⟨noun syllables, word (.consonantFirst .t .a) .verb .desire "want", rfl, rfl, Or.inl rfl⟩

/-- Two cheeses, and never lettuce on an onion. -/
def cheesesNoLettuce : Derivation.Sentence :=
  .statement (.and
    (.number (word (.consonantFirst .n .o) .adjective .number "two") 2 rfl (by decide +kernel)
      (by decide) (.bare (.bare (want [.consonantFirst .w .a]))))
    (word (.vowelFirst .e .n) .nounConjunction .conjunction "and") rfl
    (.last (.bare (.adverb (word (.consonantFirst .s .u) .adverb .ever "always") (Or.inl rfl)
      (.adverb (word (.consonantFirst .n .e) .adverb .negation "no") (Or.inr rfl)
        (.bare (.placed (noun [.consonantFirst .w .e, .vowelFirst .o .n])
          (word (.vowelFirst .u .p) .preposition .after "on") rfl (Or.inr rfl)
          (want [.consonantFirst .w .e, .consonantFirst .t .a]))))))))

theorem nounsRefer_cheesesNoLettuce :
    Derivation.NounsRefer Taxonomy.house cheesesNoLettuce.words := by
  have hall : ∀ w ∈ cheesesNoLettuce.words, w.isNoun = true →
      (Taxonomy.house.referent w).isOk = true := by decide +kernel
  exact fun w hw hn => Lexicon.exists_of_isOk (hall w hw hn)

/-- A listener whose rolls come out as given. -/
noncomputable def listener (f : Nat → Bool) : Mind ℝ :=
  ⟨{ Personality.standard with language := .uniform 1 },
    .scripted (fun k => if f k then 0 else 1) 0⟩

/-- Any outcomes are those of some listener. -/
theorem catches_listener (f : Nat → Bool) :
    (listener f).personality.language.catches (listener f).chance = fun k _ => f k := by
  funext k s
  have hskill : (listener f).personality.language.get s = 1 := by cases s <;> rfl
  have hdraw : ((listener f).chance.after k).draw.1 = if f k then 0 else 1 := by
    simp [listener, Chance.after_scripted, Chance.draw]
  rw [Language.catches, hskill, hdraw]
  cases f k <;> simp

/-- Who misses the number and the negation hears of one cheese and of lettuce for ever. -/
theorem sentence_cheesesNoLettuce :
    Derivation.NounsRefer Taxonomy.house cheesesNoLettuce.words ∧ ∃ u : Understood ℝ,
      (Grammar.sentence ⟨Lexicon.house, 1⟩ cheesesNoLettuce.words).perform
          (listener fun k => k ≠ 0 && k ≠ 2) =
        (.ok (some u), { listener fun k => k ≠ 0 && k ≠ 2 with
          chance := (listener fun k => k ≠ 0 && k ≠ 2).chance.after 5 }) ∧
      u.1.same (.compound (.add ⟨"cheese", "wa", none⟩ .top)
        (.persist (.add ⟨"lettuce", "ta", none⟩ (.after ⟨"onion", "on", none⟩)))) = true ∧
      ∀ s, u.2.get s = (([.adposition, .adverbs, .conjunction] : List Skill).count s : ℝ) := by
  obtain ⟨u, ear, hear, hu, hconveys, -⟩ := sentence_erased ⟨Lexicon.house, 1⟩
    nounsRefer_cheesesNoLettuce (listener fun k => k ≠ 0 && k ≠ 2)
  rw [catches_listener] at hear
  subst hear
  refine ⟨nounsRefer_cheesesNoLettuce, u, hu, ?_, hconveys.report.get_eq⟩
  rw [hconveys.operation]
  decide +kernel

end House

end Grammar

end DeliTalk
