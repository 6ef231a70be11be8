import DeliTalk.Proofs.Acceptance
import DeliTalk.Proofs.Luck
import DeliTalk.Proofs.Saying

/-!
# What a machine understands

Whatever words it hears, a machine in a sound language understands something or nothing and goes
on. What it understands of clauses are edits, so only a greeting alone is ever a goodbye.

* `Operation.Editing`, `Operation.Endless`: what clauses can ask for, and what ends nothing.
* `Sentence.ends_understand`: any sentence.
* `Agent.ends_understand`: any text.
* `Agent.HearsGoodbye`: a text that some machine understands as a goodbye.
* `Agent.not_hearsGoodbye_render`: no words for anything else are.
-/

namespace DeliTalk

open Act

/-! ## 1. Edits -/

namespace Operation

/-- What clauses can ask for: ingredients on, off or confirmed, once or more, now or always. -/
def Editing : Operation → Prop
  | add _ _ | remove _ | removeAll _ | ensure _ => True
  | repeated _ x | persist x => Editing x
  | compound x y => Editing x ∧ Editing y
  | affirm | negate | checkFor _ | finish => False

theorem Editing.reverse : ∀ {x : Operation}, x.Editing → x.reverse.Editing
  | add _ _, _ | remove _, _ | removeAll _, _ | ensure _, _ => True.intro
  | repeated _ x, h => Editing.reverse (x := x) h
  | persist x, h => Editing.reverse (x := x) h
  | compound x y, h => ⟨Editing.reverse (x := y) h.2, Editing.reverse (x := x) h.1⟩

/-- What ends nothing: there is no goodbye in it. -/
def Endless : Operation → Prop
  | finish => False
  | repeated _ x | persist x => Endless x
  | compound x y => Endless x ∧ Endless y
  | add _ _ | remove _ | removeAll _ | ensure _ | affirm | negate | checkFor _ => True

theorem Endless.ne_finish {x : Operation} (h : x.Endless) : x ≠ .finish := by
  rintro rfl
  exact h

theorem Endless.reverse : ∀ {x : Operation}, x.Endless → x.reverse.Endless
  | add _ _, _ | remove _, _ | removeAll _, _ | ensure _, _ | affirm, _ | negate, _
  | checkFor _, _ => True.intro
  | repeated _ x, h => Endless.reverse (x := x) h
  | persist x, h => Endless.reverse (x := x) h
  | compound x y, h => ⟨Endless.reverse (x := y) h.2, Endless.reverse (x := x) h.1⟩

theorem Endless.question : ∀ {x : Operation}, x.Endless → x.question.Endless
  | add _ _, _ | remove _, _ | removeAll _, _ | ensure _, _ | affirm, _ | negate, _
  | checkFor _, _ => True.intro
  | repeated _ x, h => Endless.question (x := x) h
  | persist x, h => Endless.question (x := x) h
  | compound x y, h => ⟨Endless.question (x := x) h.1, Endless.question (x := y) h.2⟩

/-- **No edit ends anything.** -/
theorem Editing.endless : ∀ {x : Operation}, x.Editing → x.Endless
  | add _ _, _ | remove _, _ | removeAll _, _ | ensure _, _ => True.intro
  | repeated _ x, h => Editing.endless (x := x) h
  | persist x, h => Editing.endless (x := x) h
  | compound x y, h => ⟨Editing.endless (x := x) h.1, Editing.endless (x := y) h.2⟩

theorem Editing.modify (a : Adverb) {x : Operation} (h : x.Editing) : (a.modify x).Editing := by
  cases a with
  | ever => exact h
  | negation => exact h.reverse

end Operation

/-! ## 2. Draws -/

/-- A source some draws later. -/
def Chance.Drawn {R : Type} [Scalar R] (c c' : Chance R) : Prop := ∃ n, c' = c.after n

namespace Chance.Drawn

variable {R : Type} [Scalar R] {c c' c'' : Chance R}

theorem refl (c : Chance R) : c.Drawn c := ⟨0, rfl⟩

theorem draw (h : c.Drawn c') : c.Drawn c'.draw.2 := by
  obtain ⟨n, rfl⟩ := h
  exact ⟨n + 1, draw_after n c⟩

theorem trans (h : c.Drawn c') (h' : c'.Drawn c'') : c.Drawn c'' := by
  obtain ⟨n, rfl⟩ := h
  obtain ⟨k, rfl⟩ := h'
  exact ⟨n + k, (after_add n k c).symm⟩

theorem proper {c c' : Chance ℝ} (h : c.Drawn c') (hc : c.Proper) : c'.Proper := by
  obtain ⟨n, rfl⟩ := h
  induction n generalizing c with
  | zero => exact hc
  | succ n ih => exact ih hc.draw

end Chance.Drawn

theorem ends_roll {R : Type} [Scalar R] {p : R} {c : Chance R} {post : Bool → Chance R → Prop}
    {flaw : Fault → Chance R → Prop} :
    Ends (roll p) c post flaw ↔ post (decide (c.draw.1 < p)) c.draw.2 := Iff.rfl

/-! ## 3. Sentences -/

variable {R : Type} [Scalar R] {t : Taxonomy}

/-- A fault that only spoils one attempt, some draws later. -/
def Spoils (c : Chance R) (e : Fault) (c' : Chance R) : Prop :=
  Grammar.isPassing e = true ∧ c.Drawn c'

theorem spoils_referent {w : Tagged} {e : Fault} (h : t.referent w = .error e) (c : Chance R) :
    Spoils c e c := by
  refine ⟨?_, .refl c⟩
  unfold Taxonomy.referent Taxonomy.referent.byMorphemes at h
  split at h
  · simp only at h
    split at h <;> cases h
    rfl
  · split at h
    · split at h
      · cases h
      · simp only at h
        split at h <;> cases h
        rfl
    · cases h
      rfl

theorem ends_referent (t : Taxonomy) (w : Tagged) (c : Chance R) :
    Ends (Act.ofExcept (t.referent w)) c (fun _ c' => c' = c) (Spoils c) := by
  cases h : t.referent w with
  | error e => exact spoils_referent h c
  | ok i => rfl

namespace Clause

variable (skills : Language R) {chance : Chance R}

/-- What is heard of clauses, some draws later. -/
def Hears (chance : Chance R) (u : Understood R) (c : Chance R) : Prop :=
  u.1.Editing ∧ chance.Drawn c

theorem ends_core (c : Clause) (chance : Chance R) :
    Ends (Act.ofExcept (c.core t)) chance (fun x c' => x.Editing ∧ c' = chance)
      (Spoils chance) := by
  unfold core
  cases hi : t.referent c.noun with
  | error e => exact spoils_referent hi chance
  | ok i =>
    simp only
    split
    · exact ⟨True.intro, rfl⟩
    · exact ⟨True.intro, rfl⟩
    · exact ⟨rfl, .refl chance⟩

theorem ends_understandPlaced (c : Clause) (chance : Chance R) :
    Ends (c.understandPlaced t skills) chance (Hears chance) (Spoils chance) := by
  unfold understandPlaced
  rw [ends_bind]
  refine (ends_core c chance).imp ?_
  rintro x _ ⟨hx, rfl⟩
  split
  · rw [ends_bind, ends_roll]
    split
    · rw [ends_bind]
      refine (ends_referent t _ _).mono ?_
        fun e c he => ⟨he.1, (Chance.Drawn.refl _).draw.trans he.2⟩
      rintro a _ rfl
      exact ⟨True.intro, (Chance.Drawn.refl _).draw⟩
    · exact ⟨hx, (Chance.Drawn.refl _).draw⟩
  · exact ⟨hx, Chance.Drawn.refl _⟩

theorem ends_understandAdverbs {inner : Luck R (Understood R)}
    (h : Ends inner chance (Hears chance) (Spoils chance)) : ∀ adverbs : List Adverb,
    Ends (understandAdverbs skills inner adverbs) chance (Hears chance) (Spoils chance)
  | [] => h
  | a :: rest => by
    unfold understandAdverbs
    rw [ends_bind]
    refine (ends_understandAdverbs h rest).imp fun u c hu => ?_
    rw [ends_bind, ends_roll]
    split
    · exact ⟨hu.1.modify a, hu.2.draw⟩
    · exact ⟨hu.1, hu.2.draw⟩

theorem ends_understand (c : Clause) (chance : Chance R) :
    Ends (c.understand t skills) chance (Hears chance) (Spoils chance) := by
  unfold understand
  rw [ends_bind]
  refine (ends_understandAdverbs skills (ends_understandPlaced skills c chance) _).imp
    fun u c' hu => ?_
  obtain ⟨x, used⟩ := u
  cases c.count with
  | none => exact hu
  | some n =>
    simp only
    rw [ends_bind, ends_roll]
    split
    · exact ⟨hu.1, hu.2.draw⟩
    · exact ⟨hu.1, hu.2.draw⟩

/-- A fault of clauses with some ending, some draws later: it only spoils one attempt unless the
ending cannot be read. -/
def Upsets (ending : Ending) (chance : Chance R) (e : Fault) (c : Chance R) : Prop :=
  ((∃ rest, ending = .rest rest) → Grammar.isPassing e = true) ∧ chance.Drawn c

theorem ends_understandChain (ending : Ending) : ∀ (c : Clause) (more : List Clause)
    (chance : Chance R), Ends (understandChain t skills ending c more) chance (Hears chance)
      (Upsets ending chance)
  | c, [], chance => by
    unfold understandChain
    rw [ends_bind]
    refine (ends_understand skills c chance).mono (fun u c' hu => ?_)
      fun e c' he => ⟨fun _ => he.1, he.2⟩
    cases ending with
    | rest rest => exact hu
    | unreadable cause => exact ⟨by simp, hu.2⟩
  | c, d :: more, chance => by
    unfold understandChain
    rw [ends_bind]
    refine (ends_understand skills c chance).mono (fun u c' hu => ?_)
      fun e c' he => ⟨fun _ => he.1, he.2⟩
    rw [ends_bind]
    refine (ends_understandChain ending d more c').mono (fun v c'' hv => ?_)
      fun e c'' he => ⟨he.1, hu.2.trans he.2⟩
    rw [ends_bind, ends_roll]
    have hdrawn := hu.2.trans hv.2
    split
    · exact ⟨⟨hu.1, hv.1⟩, hdrawn.draw⟩
    · exact ⟨hv.1, hdrawn.draw⟩

end Clause

namespace Sentence

variable (skills : Language R)

/-- A fault of a sentence, some draws later: it only spoils one attempt if the numbers can be
read. -/
def Falters (ts : List Tagged) (chance : Chance R) (e : Fault) (c : Chance R) : Prop :=
  (Readable ts → Grammar.isPassing e = true) ∧ chance.Drawn c

theorem ends_understandAll (ts : List Tagged) (chance : Chance R) :
    Ends (understandAll t skills ts) chance
      (fun u c => (∀ v ∈ u, v.1.Editing) ∧ chance.Drawn c) (Falters ts chance) := by
  unfold understandAll
  split
  · exact ⟨by simp, Chance.Drawn.refl _⟩
  · rename_i cause hread
    refine ⟨fun h => ?_, Chance.Drawn.refl _⟩
    unfold Outline.read at hread
    split at hread
    · cases hread
    · cases hread
    · rename_i hclause
      exact absurd hclause (h.read_ne_unreadable _)
  · rename_i o hread
    have hrest : Readable ts → ∃ rest, o.ending = .rest rest := by
      intro h
      unfold Outline.read at hread
      split at hread
      · rename_i c left hclause
        have hleft := h.mono (Clause.nouns_of_read hclause).2.2
        obtain ⟨rest, hend⟩ := Outline.ending_of_readable _ left hleft rfl
        cases hread
        exact ⟨rest, hend⟩
      · cases hread
      · cases hread
    rw [ends_bind]
    refine (Clause.ends_understandChain skills o.ending o.first o.more chance).mono
      (fun u c hu => ?_) fun e c he => ⟨fun h => he.1 (hrest h), he.2⟩
    refine ⟨fun v hv => ?_, hu.2⟩
    split at hv
    · cases hv
      exact hu.1
    · cases hv

/-- What is understood of a sentence: nothing that ends anything, or else a goodbye, and that only
of a greeting alone. -/
def Means (ts : List Tagged) (x : Operation) : Prop :=
  x.Endless ∨ x = .finish ∧ ∃ w, ts = [w] ∧ w.is .greeting = true

/-- A sentence of one word that stands for itself. -/
theorem means_single {w : Tagged} {x : Operation} (h : single? w = some x) : Means [w] x := by
  unfold single? at h
  split at h
  · rename_i hgreeting
    cases h
    exact Or.inr ⟨rfl, w, rfl, by rw [Tagged.is_iff]; exact hgreeting⟩
  all_goals cases h
  · exact Or.inl True.intro
  · exact Or.inl True.intro

/-- **Any sentence**: something is understood, or nothing, or the attempt is spoiled. Only a greeting
alone is a goodbye. -/
theorem ends_understand (ts : List Tagged) (chance : Chance R) :
    Ends (understand t skills ts) chance
      (fun u c => (∀ v ∈ u, Means ts v.1) ∧ chance.Drawn c) (Falters ts chance) := by
  cases ts with
  | nil => exact ⟨by simp, Chance.Drawn.refl _⟩
  | cons w rest =>
    by_cases ha : Alone w rest
    · obtain ⟨rfl, x, hx⟩ := ha
      have hperform : (understand t skills [w]).perform chance =
          (.ok (some (x, .unused)), chance) := by simp [understand, hx]
      refine ends_of_perform hperform ⟨?_, Chance.Drawn.refl _⟩
      intro v hv
      cases hv
      exact means_single hx
    · rw [understand_of_not_alone ha]
      split
      · rw [ends_bind]
        refine (ends_understandAll skills rest chance).mono (fun u c hu => ⟨?_, hu.2⟩)
          fun e c he => ⟨fun h => he.1 (h.mono (List.subset_cons_self w rest)), he.2⟩
        intro v hv
        obtain ⟨v', hv', rfl⟩ := Option.mem_map.mp hv
        exact Or.inl (hu.1 v' hv').endless.question
      · exact (ends_understandAll skills _ chance).imp fun u c hu =>
          ⟨fun v hv => Or.inl (hu.1 v hv).endless, hu.2⟩

end Sentence

/-! ## 4. Texts -/

/-- A machine whose source is some draws later. -/
def Mind.Later (m m' : Mind R) : Prop := ∃ c, m.chance.Drawn c ∧ m' = { m with chance := c }

namespace Grammar

theorem ends_sentence (g : Grammar) (ts : List Tagged) (m : Mind R) :
    Ends (g.sentence ts) m
      (fun u m' => (∀ v ∈ u, Sentence.Means ts v.1) ∧ m.Later m')
      (fun e m' => (Readable ts → isPassing e = true) ∧ m.Later m') := by
  unfold sentence Mind.lucky
  rw [ends_bind, ends_get, ends_on]
  exact (Sentence.ends_understand _ ts m.chance).mono (fun u c hu => ⟨hu.1, c, hu.2, rfl⟩)
    fun e c he => ⟨he.1, c, he.2, rfl⟩

/-- **Any text whose numbers can be read** is parsed, or has no parse. -/
theorem ends_parse {g : Grammar} (hread : ∀ ws : List Word, Readable (g.annotate ws))
    (text : String) (m : Mind R) :
    Ends (g.parse false text) m
      (fun r m' => (∃ ws, Phrase.read text = .ok ws ∧
        Sentence.Means (g.annotate ws) r.operation) ∧ m.Later m')
      (fun e m' => (∃ cause, e = .unparsed cause) ∧ m.Later m') := by
  have hrefl : m.Later m := ⟨m.chance, .refl _, rfl⟩
  unfold parse
  cases hphrase : Phrase.read text with
  | error e => exact ⟨⟨_, rfl⟩, hrefl⟩
  | ok ws =>
    have hone : (1 : Int).toNat = 0 + 1 := rfl
    simp only [Bool.false_eq_true, if_false, hone]
    rw [ends_bind]
    unfold tryAgain tryOnce
    simp only [Bool.false_eq_true, if_false]
    rw [ends_bind, ends_bind, ends_pure, ends_bind, ends_attempt]
    refine (g.ends_sentence (g.annotate ws) m).mono (fun u m' hu => ?_) fun e m' he => ?_
    · cases u with
      | none => exact ⟨⟨_, rfl⟩, hu.2⟩
      | some v => exact ⟨⟨ws, rfl, hu.1 v rfl⟩, hu.2⟩
    · simp only [he.1 (hread ws), if_true]
      exact ⟨⟨_, rfl⟩, he.2⟩

end Grammar

/-! ## 5. Machines in a sound language -/

namespace Lexicon.Sound

/-- The numbers of a sound language can be read. -/
theorem readable_annotate {words : List (String × Entry)} (h : Sound t words) {g : Grammar}
    (hg : g.lexicon = build t words) (ws : List Word) : Readable (g.annotate ws) := by
  intro w hw hnumber
  obtain ⟨v, -, rfl⟩ := List.mem_map.mp hw
  rw [Tagged.is_iff] at hnumber
  unfold Grammar.tag at hnumber ⊢
  simp only at hnumber ⊢
  cases hlookup : g.lexicon.lookup? v.text with
  | none =>
    rw [hlookup] at hnumber
    simp only at hnumber
    split at hnumber <;> cases hnumber
  | some e =>
    rw [hlookup] at hnumber
    simp only [Tagged.usage?, Option.map_some, Option.some.injEq] at hnumber
    rw [hg] at hlookup
    obtain ⟨n, hn⟩ := readable_of_mem h (Register.mem_keys_of_find? hlookup) hnumber
    exact ⟨n, by simp [hn]⟩

end Lexicon.Sound

namespace Agent

/-- A machine that speaks a language and looks its words up. -/
structure Speaks (a : Agent R) (t : Taxonomy) (words : List (String × Entry)) : Prop where
  lexicon : a.lexicon = Lexicon.build t words
  settled : a.config.vocabularyLearning = false

/-- Whether some machine like this one understands a text as a goodbye. -/
def HearsGoodbye (a : Agent R) (text : Option String) : Prop :=
  ∃ (m m' : Mind R) (r : Reading R),
    (a.understand text).perform m = (.ok (some r), m') ∧ r.operation = .finish

/-- What a machine understands of words that make a sentence. -/
theorem perform_understand {a : Agent R} (ha : a.config.vocabularyLearning = false)
    {ts : List Tagged} (hne : ts ≠ []) (hspelled : ∀ w ∈ ts, w.word.syllables ≠ []) {m m' : Mind R}
    {u : Understood R}
    (hu : (a.grammar.sentence (a.grammar.annotate (ts.map (·.word)))).perform m =
      (.ok (some u), m')) :
    (a.understand (some (Phrase.render ts))).perform m =
      (.ok (some ⟨u.1, u.2, Grammar.lexed (a.grammar.annotate (ts.map (·.word))), 1⟩), m') := by
  have hparse := Grammar.perform_parse hne hspelled hu
  have hread := Phrase.read_render hne hspelled
  unfold understand
  split
  · rename_i heq
    cases heq
  · rename_i heq
    rw [Option.some.inj heq] at hread
    cases hread
  · rename_i s hs heq
    cases heq
    rw [perform_bind, perform_attempt, ha, hparse]
    rfl

section

variable {words : List (String × Entry)} (h : Lexicon.Sound t words) {a : Agent R}
  (ha : a.Speaks t words)

include h ha

/-- **Any text** is understood or not, and nothing goes wrong. A goodbye is a greeting alone. -/
theorem ends_understand (text : Option String) (m : Mind R) :
    Ends (a.understand text) m (fun r m' => m.Later m' ∧ ∀ reading ∈ r,
      reading.operation = .finish → ∃ s ws w, text = some s ∧ Phrase.read s = .ok ws ∧
        a.grammar.annotate ws = [w] ∧ w.is .greeting = true) never := by
  have hrefl : m.Later m := ⟨m.chance, .refl _, rfl⟩
  have hparse := fun s => Grammar.ends_parse (h.readable_annotate (g := a.grammar) ha.lexicon) s m
  unfold understand
  split
  · exact ⟨hrefl, by simp⟩
  · exact ⟨hrefl, by simp⟩
  · rename_i s _
    rw [ends_bind, ends_attempt, ha.settled]
    refine (hparse s).mono ?_ ?_
    · rintro r m' ⟨⟨ws, hws, halone⟩, hlater⟩
      refine ⟨hlater, ?_⟩
      intro reading hreading hfinish
      cases hreading
      rcases halone with hendless | ⟨-, w, hw, hgreeting⟩
      · exact absurd hfinish hendless.ne_finish
      · exact ⟨s, ws, w, rfl, hws, hw, hgreeting⟩
    · rintro e m' ⟨⟨cause, rfl⟩, hlater⟩
      exact ⟨hlater, by simp⟩

/-- **No words for anything else are understood as a goodbye.** -/
theorem not_hearsGoodbye_render {x : Operation} {ts : List Tagged} (hts : Spoken a.grammar x ts)
    (hx : x ≠ .finish) : ¬ a.HearsGoodbye (some (Phrase.render ts)) := by
  rintro ⟨m, m', r, hr, hfinish⟩
  have hends := ends_understand h ha (some (Phrase.render ts)) m
  unfold Ends at hends
  rw [hr] at hends
  obtain ⟨s, ws, w, hs, hws, hw, hgreeting⟩ := hends.2 r rfl hfinish
  cases hs
  rw [Phrase.read_render hts.some hts.spelled] at hws
  cases hws
  cases ts with
  | nil => exact hts.some rfl
  | cons v rest =>
    cases rest with
    | cons u rest => simp [Grammar.annotate] at hw
    | nil =>
      simp only [Grammar.annotate, List.map_cons, List.map_nil, List.cons.injEq, and_true] at hw
      have halone := hts.alone v rfl hx
      rw [hw, hgreeting] at halone
      cases halone

/-- **A greeting is understood as a goodbye** by everyone, without a draw. -/
theorem perform_understand_hello {w : Tagged} (hw : a.lexicon.wordForUsage .greeting = .ok w)
    (m : Mind R) : ∃ r : Reading R, (a.understand (some (Phrase.render [w]))).perform m =
      (.ok (some r), m) ∧ r.operation = .finish := by
  obtain ⟨v, hv, htag, hne, his⟩ :=
    Operation.exists_function_word h.clear (g := a.grammar) ha.lexicon (u := .greeting) (by simp)
  rw [show a.grammar.lexicon = a.lexicon from rfl, hw] at hv
  cases hv
  have hannotate : a.grammar.annotate ([w].map (·.word)) = [w] := by
    simp [Grammar.annotate, htag]
  have hsentence : (a.grammar.sentence [w]).perform m = (.ok (some (.finish, .unused)), m) := by
    refine Grammar.perform_sentence (c := m.chance) ?_
    rw [Tagged.is_iff] at his
    simp [Sentence.understand, Sentence.single?, his]
  rw [← hannotate] at hsentence
  exact ⟨_, perform_understand ha.settled (by simp) (by simpa using hne) hsentence, rfl⟩

end

end Agent

end DeliTalk
