import DeliTalk.Proofs.Echo
import DeliTalk.Proofs.Escapes
import DeliTalk.Proofs.Terms

/-!
# What a machine is prepared for

Whatever it hears, a machine understands something or nothing; whatever it is to say, it says it or is
silent. That is so in a language whose numbers can all be read and whose words can all be spelled, as
far as they serve for something, and in no other.

* `Lexicon.Speakable`: languages in which nothing goes wrong with what is said.
* `Operation.encode_error`: what may go wrong.
* `Operation.encodes_iff`: when nothing does.
* `Agent.understands_iff`, `Agent.speaks_iff`: the same of a machine.
* `Agent.hears_and_speaks`: all of it.
-/

namespace DeliTalk

open Act

section Failing

variable {α β : Type} {P : Fault → Prop}

/-- Whether nothing but some faults comes between a value and who asks for it. -/
def FailsOnly (P : Fault → Prop) (x : Except Fault α) : Prop := ∀ e, x = .error e → P e

theorem failsOnly_ok {a : α} : FailsOnly P (.ok a) := nofun

theorem failsOnly_error {e : Fault} (h : P e) : FailsOnly P (.error e : Except Fault α) := by
  rintro _ ⟨⟩
  exact h

theorem failsOnly_bind {x : Except Fault α} {f : α → Except Fault β} (hx : FailsOnly P x)
    (hf : ∀ a, x = .ok a → FailsOnly P (f a)) : FailsOnly P (x >>= f) := by
  cases x with
  | ok a => exact hf a rfl
  | error e' => exact failsOnly_error (hx e' rfl)

end Failing

namespace Lexicon

/-! ## 1. Words for something -/

variable {lex : Lexicon} {P : Fault → Prop}

section Words

variable (hmissing : ∀ c, P (.missing c))

theorem failsOnly_annotated {text : String}
    (hspelled : ∀ cause, Word.read text = .error cause → P (.misspelling cause)) :
    FailsOnly P (lex.annotated text) := by
  unfold annotated
  cases hread : Word.read text with
  | ok w => exact failsOnly_ok
  | error cause => exact failsOnly_error (hspelled cause hread)

include hmissing

/-- The word of a usage is missing, or cannot be spelled. -/
theorem failsOnly_wordForUsage {u : Usage} (hspelled : ∀ p cause, lex.entryForUsage u = .ok p →
    Word.read p.1 = .error cause → P (.misspelling cause)) : FailsOnly P (lex.wordForUsage u) := by
  refine failsOnly_bind ?_ fun p hp => failsOnly_annotated fun cause => hspelled p cause hp
  unfold entryForUsage
  split
  · exact failsOnly_ok
  · exact failsOnly_error (hmissing _)

/-- The word of an ingredient is missing, or cannot be spelled. -/
theorem failsOnly_wordForIngredient {i : Ingredient} (hspelled : ∀ text cause,
    lex.taxonomy.wordFor? i = some text → Word.read text = .error cause → P (.misspelling cause)) :
    FailsOnly P (lex.wordForIngredient i) := by
  unfold wordForIngredient
  split
  · exact failsOnly_error (hmissing _)
  · rename_i text htext
    cases hread : Word.read text with
    | ok w => exact failsOnly_ok
    | error cause => exact failsOnly_error (hspelled text cause htext hread)

/-- A number is missing, or there is one before it that cannot be read. -/
theorem failsOnly_findNumber {n : Int} {es : List (String × Entry)}
    (hread : ∀ p ∈ es, ∀ cause, p.2.Reads ∨ P (.unreadableNumber cause)) :
    FailsOnly P (findNumber n es) := by
  rcases findNumber_cases n es with ⟨p, -, -, hfound⟩ | ⟨-, hnone⟩ | ⟨p, hp, hunread, cause, hcause⟩
  · rw [hfound]
    exact failsOnly_ok
  · rw [hnone]
    exact failsOnly_error (hmissing _)
  · rw [hcause]
    exact failsOnly_error ((hread p hp cause).resolve_left hunread)

/-- The word of a number is missing, or cannot be spelled, or there is one before it that cannot be
read. -/
theorem failsOnly_wordForNumber {n : Int}
    (hread : ∀ p ∈ lex.entries, ∀ cause, p.2.Reads ∨ P (.unreadableNumber cause))
    (hspelled : ∀ text cause, findNumber n lex.entries = .ok text → Word.read text = .error cause →
      P (.misspelling cause)) : FailsOnly P (lex.wordForNumber n) :=
  failsOnly_bind (failsOnly_findNumber hmissing hread) fun text htext =>
    failsOnly_annotated fun cause => hspelled text cause htext

end Words

/-- A word is not annotated if it cannot be spelled. -/
theorem annotated_error {text : String} {cause : Misspelling} (h : Word.read text = .error cause) :
    lex.annotated text = .error (.misspelling cause) := by
  unfold annotated
  rw [h]
  rfl

theorem wordForUsage_eq {u : Usage} {p : String × Entry} (h : lex.entryForUsage u = .ok p) :
    lex.wordForUsage u = lex.annotated p.1 := by
  rw [wordForUsage, h]
  rfl

theorem wordForNumber_eq {n : Int} {text : String} (h : findNumber n lex.entries = .ok text) :
    lex.wordForNumber n = lex.annotated text := by
  rw [wordForNumber, h]
  rfl

/-- A node's word, in letters and as it is said. -/
theorem wordForIngredient_eq {i : Ingredient} {text : String}
    (h : lex.taxonomy.wordFor? i = some text) :
    lex.wordForIngredient i = (spelled (Word.read text)).map
      fun w => ⟨w, some .noun, some (Entry.ofIngredient i.name)⟩ := by
  unfold wordForIngredient
  rw [h]
  rfl

/-- Beyond some number there are no words for any. -/
theorem exists_wordless : ∀ es : List (String × Entry), ∃ least : Nat, ∀ n : Nat, least ≤ n →
    ∀ p ∈ es, ¬ p.2.IsNumber n
  | [] => ⟨0, fun _ _ => nofun⟩
  | p :: rest => by
    obtain ⟨least, hleast⟩ := exists_wordless rest
    have hp : ∃ k : Nat, ∀ n : Nat, p.2.IsNumber n → n ≤ k := by
      cases hvalue : p.2.number? with
      | error cause =>
        refine ⟨0, ?_⟩
        rintro n ⟨-, m, hm, -⟩
        rw [hvalue] at hm
        cases hm
      | ok k =>
        refine ⟨k.getD 0, ?_⟩
        rintro n ⟨-, m, hm, hmn⟩
        rw [hvalue, Except.ok.injEq] at hm
        subst hm
        exact Int.ofNat_le.mp hmn.ge
    obtain ⟨k, hk⟩ := hp
    refine ⟨max least (k + 1), fun n hn => List.forall_mem_cons.mpr ⟨fun hnumber => ?_, ?_⟩⟩
    · have := hk n hnumber
      omega
    · exact hleast n (by omega)

/-- The search for a number without a word stops at a word that cannot be read. -/
theorem findNumber_of_wordless {n : Int} {es : List (String × Entry)}
    (hnone : ∀ p ∈ es, ¬ p.2.IsNumber n) (h : ¬ ∀ p ∈ es, p.2.Reads) :
    ∃ cause, findNumber n es = .error (.unreadableNumber cause) := by
  rcases findNumber_cases n es with ⟨p, hp, hnumber, -⟩ | ⟨hall, -⟩ | ⟨p, -, -, hcause⟩
  · exact absurd hnumber (hnone p hp)
  · exact absurd (fun p hp => (hall p hp).1) h
  · exact hcause

end Lexicon

/-- Some node of every menu has a word: the first. -/
theorem Taxonomy.exists_wordFor? (t : Taxonomy) : ∃ text, t.wordFor? t.root = some text := by
  have hroot : (t.walk.find? (·.1.name == t.root.name)).isSome :=
    List.find?_isSome.mpr ⟨_, t.root_mem_walk, by simp⟩
  obtain ⟨p, hp⟩ := Option.isSome_iff_exists.mp hroot
  exact ⟨p.2, by rw [wordFor?_eq, hp, Option.map_some]⟩

/-! ## 2. Words for an operation -/

/-- Whether all numbers can be read, and every word there is for something can be spelled. The word
that joins clauses matters only where there is a clause to join. -/
structure Lexicon.Speakable (lex : Lexicon) : Prop where
  reads : ∀ p ∈ lex.entries, p.2.Reads
  nodes : ∀ i text, lex.taxonomy.wordFor? i = some text → ∃ w, Word.read text = .ok w
  numbers : ∀ (n : Nat) text, findNumber n lex.entries = .ok text → ∃ w, Word.read text = .ok w
  usages : ∀ u p, u ≠ .number → u ≠ .ingredient → lex.entryForUsage u = .ok p →
    (u = .conjunction → ∃ (x : Operation) (ts : List Tagged), x.encode lex = .ok ts) →
    ∃ w, Word.read p.1 = .ok w

namespace Operation

variable {lex : Lexicon} {P : Fault → Prop}

/-- **What goes wrong with an operation** went wrong with one of its words. -/
theorem failsOnly_encode (hnoun : ∀ i, FailsOnly P (lex.wordForIngredient i))
    (hnumber : ∀ n : Nat, FailsOnly P (lex.wordForNumber n))
    (husage : ∀ u, u ≠ .number → u ≠ .ingredient →
      (u = .conjunction → ∃ (x : Operation) (ts : List Tagged), x.encode lex = .ok ts) →
      FailsOnly P (lex.wordForUsage u)) (x : Operation) : FailsOnly P (x.encode lex) := by
  rcases encode_cases lex x with ⟨ts, hts, -⟩ | ⟨k, hk, e, he, hencode, hjoin⟩
  · rw [hts]
    exact failsOnly_ok
  · rw [hencode]
    refine failsOnly_error ?_
    cases k with
    | ingredient i => exact hnoun i e he
    | usage u =>
      have hu := usage_of_mem_terms hk
      exact husage u hu.1 hu.2 (fun hconjunction => hjoin (by rw [hconjunction])) e he
    | number n => exact hnumber n e he

/-- **What may go wrong** with an operation: a word is missing, or cannot be spelled, or is for a
number that cannot be read. -/
theorem encode_error {x : Operation} {e : Fault} (h : x.encode lex = .error e) :
    (∃ c, e = .missing c) ∨ (∃ cause, e = .misspelling cause) ∨
      ∃ cause, e = .unreadableNumber cause := by
  have hmissing : ∀ c, (∃ c', Fault.missing c = .missing c') ∨
      (∃ cause, Fault.missing c = .misspelling cause) ∨
        ∃ cause, Fault.missing c = .unreadableNumber cause := fun c => Or.inl ⟨c, rfl⟩
  refine failsOnly_encode (P := fun e => (∃ c, e = .missing c) ∨ (∃ cause, e = .misspelling cause) ∨
      ∃ cause, e = .unreadableNumber cause)
    (fun i => Lexicon.failsOnly_wordForIngredient hmissing ?_)
    (fun n => Lexicon.failsOnly_wordForNumber hmissing ?_ ?_)
    (fun u _ _ _ => Lexicon.failsOnly_wordForUsage hmissing ?_) x e h
  · exact fun _ cause _ _ => Or.inr (Or.inl ⟨cause, rfl⟩)
  · exact fun _ _ cause => Or.inr (Or.inr (Or.inr ⟨cause, rfl⟩))
  · exact fun _ cause _ _ => Or.inr (Or.inl ⟨cause, rfl⟩)
  · exact fun _ cause _ _ => Or.inr (Or.inl ⟨cause, rfl⟩)

/-- If every word can be said, what goes wrong is that one is missing. -/
theorem failsOnly_encode_of_speakable (h : lex.Speakable) (x : Operation) :
    FailsOnly (∃ c, · = .missing c) (x.encode lex) := by
  have hread : ∀ {text cause}, (∃ w, Word.read text = .ok w) → Word.read text = .error cause →
      ∃ c, Fault.misspelling cause = .missing c := by
    rintro text cause ⟨w, hw⟩ hcause
    rw [hw] at hcause
    cases hcause
  have hmissing : ∀ c, ∃ c', Fault.missing c = .missing c' := fun c => ⟨c, rfl⟩
  refine failsOnly_encode (P := (∃ c, · = .missing c))
    (fun i => Lexicon.failsOnly_wordForIngredient hmissing ?_)
    (fun n => Lexicon.failsOnly_wordForNumber hmissing ?_ ?_)
    (fun u hn hi hsaid => Lexicon.failsOnly_wordForUsage hmissing ?_) x
  · exact fun text cause htext => hread (h.nodes i text htext)
  · exact fun p hp _ => Or.inl (h.reads p hp)
  · exact fun text cause htext => hread (h.numbers n text htext)
  · exact fun p cause hp => hread (h.usages u p hn hi hp hsaid)

/-- Whatever a usage is for, some operation is said with its word. -/
theorem exists_encode_error {u : Usage} {e : Fault} {i : Ingredient} {w : Tagged}
    (hnumber : u ≠ .number) (hingredient : u ≠ .ingredient)
    (hsaid : u = .conjunction → ∃ (x : Operation) (ts : List Tagged), x.encode lex = .ok ts)
    (hnoun : lex.wordForIngredient i = .ok w) (hanchor : lex.wordForIngredient i.leaf = .ok w)
    (hword : lex.wordForUsage u = .error e) : ∃ x : Operation, x.encode lex = .error e := by
  cases u with
  | greeting => exact ⟨.finish, by rw [encode, hword]; rfl⟩
  | affirmation => exact ⟨.affirm, by rw [encode, hword]; rfl⟩
  | negation => exact ⟨.negate, by rw [encode, hword]; rfl⟩
  | desire => exact ⟨.add i .top, by rw [encode, wantWords, hnoun, hword]; rfl⟩
  | possession => exact ⟨.ensure i, by rw [encode, hnoun, hword]; rfl⟩
  | before =>
    refine ⟨.add i (.before i), ?_⟩
    rw [encode, wantWords]
    simp only [Relative.before, hanchor, hword]
    rfl
  | after =>
    refine ⟨.add i (.after i), ?_⟩
    rw [encode, wantWords]
    simp only [Relative.after, hanchor, hword]
    rfl
  | conjunction =>
    obtain ⟨x, ts, hts⟩ := hsaid rfl
    exact ⟨.compound x x, by rw [encode, hts, hword]; rfl⟩
  | ever => exact ⟨.persist .affirm, by rw [encode, hword]; rfl⟩
  | question => exact ⟨.checkFor i, by rw [encode, hword]; rfl⟩
  | number => exact absurd rfl hnumber
  | ingredient => exact absurd rfl hingredient

/-- **When nothing but a missing word goes wrong**, whatever is said: if the words there are can be
read and spelled. -/
theorem encodes_iff :
    (∀ x : Operation, FailsOnly (∃ c, · = .missing c) (x.encode lex)) ↔ lex.Speakable := by
  refine ⟨fun hall => ?_, failsOnly_encode_of_speakable⟩
  -- each word is said somewhere, where a fault with it shows
  have hspelled : ∀ {x : Operation} {cause : Misspelling},
      x.encode lex ≠ .error (.misspelling cause) := by
    intro x cause he
    obtain ⟨c, hc⟩ := hall x _ he
    cases hc
  have hnodes : ∀ {i text}, lex.taxonomy.wordFor? i = some text →
      ∃ w, Word.read text = .ok w := by
    intro i text htext
    cases hread : Word.read text with
    | ok w => exact ⟨w, rfl⟩
    | error cause =>
      refine absurd ?_ (@hspelled (.ensure i) cause)
      rw [encode, Lexicon.wordForIngredient_eq htext, hread]
      rfl
  refine ⟨?_, fun i text => hnodes, fun n text htext => ?_,
    fun u p hnumber hingredient hentry hsaid => ?_⟩
  · by_contra hunread
    obtain ⟨least, hleast⟩ := Lexicon.exists_wordless lex.entries
    obtain ⟨cause, hcause⟩ := Lexicon.findNumber_of_wordless (hleast least (le_refl least)) hunread
    have hencode : (repeated least .affirm).encode lex = .error (.unreadableNumber cause) := by
      rw [encode, Lexicon.wordForNumber, hcause]
      rfl
    obtain ⟨c, hc⟩ := hall _ _ hencode
    cases hc
  · cases hread : Word.read text with
    | ok w => exact ⟨w, rfl⟩
    | error cause =>
      refine absurd ?_ (@hspelled (.repeated n .affirm) cause)
      rw [encode, Lexicon.wordForNumber_eq htext, Lexicon.annotated_error hread]
      rfl
  · cases hread : Word.read p.1 with
    | ok w => exact ⟨w, rfl⟩
    | error cause =>
      obtain ⟨text, htext⟩ := lex.taxonomy.exists_wordFor?
      obtain ⟨w, hw⟩ := hnodes htext
      have hnoun : lex.wordForIngredient lex.taxonomy.root =
          .ok ⟨w, some .noun, some (Entry.ofIngredient lex.taxonomy.root.name)⟩ := by
        rw [Lexicon.wordForIngredient_eq htext, hw]
        rfl
      have hword := (Lexicon.wordForUsage_eq hentry).trans (Lexicon.annotated_error hread)
      obtain ⟨x, hx⟩ := exists_encode_error hnumber hingredient hsaid hnoun hnoun hword
      exact absurd hx hspelled

end Operation

namespace Lexicon

/-- No number escapes where all can be read. -/
theorem not_obscure {lex : Lexicon} (h : ∀ p ∈ lex.entries, p.2.Reads) (probabilistic : Bool)
    (cause : Numeral.Unread) : ¬ lex.Obscure probabilistic cause := by
  rintro ⟨p, hp, -, hu, hcause⟩
  obtain ⟨n, hn⟩ := h p hp hu
  rw [hcause] at hn
  cases hn

/-- Everything is said, if it has words, in a sound language. -/
theorem Sound.speakable {t : Taxonomy} {words : List (String × Entry)} (h : Sound t words) :
    (build t words).Speakable where
  reads p hp := readable_of_mem h hp
  nodes i text htext := by
    rw [taxonomy_build, Taxonomy.wordFor?_eq, Option.map_eq_some_iff] at htext
    obtain ⟨p, hp, rfl⟩ := htext
    obtain ⟨w, hread, -⟩ := h.tree.exists_word (List.mem_of_find?_eq_some hp)
    exact ⟨w, hread⟩
  numbers n text htext := by
    obtain ⟨e, he, hu, -⟩ := mem_of_findNumber htext
    exact h.spelled _ (mem_words_of_mem he (by rw [hu]; simp))
  usages u p _ hingredient hentry _ := by
    obtain ⟨hmem, hpu⟩ := mem_of_entryForUsage hentry
    exact h.spelled p (mem_words_of_mem hmem (hpu ▸ hingredient))

end Lexicon

/-! ## 3. Machines -/

/-- Silence has no reading. -/
theorem Grammar.parses_silence (g : Grammar) (probabilistic : Bool) (m : Mind ℝ) :
    g.Parses probabilistic "" m := by
  have hread : Phrase.read "" = .error .emptyPhrase := rfl
  unfold Parses parse
  rw [hread]
  exact ⟨_, rfl⟩

namespace Agent

variable {t : Taxonomy} {words : List (String × Entry)} {a : Agent ℝ}

/-- What is heard is understood, or not, if it has a reading or none. -/
theorem ends_understand_iff {text : String} (htext : text ≠ "") (m : Mind ℝ) :
    Ends (a.understand (some text)) m (fun _ _ => True) never ↔
      a.grammar.Parses a.config.vocabularyLearning text m := by
  have hparse : Ends (a.understand (some text)) m (fun _ _ => True) never ↔
      Ends (a.grammar.parse a.config.vocabularyLearning text).attempt m (fun r _ =>
        ∀ e, r = .error e → ∃ cause, e = .unparsed cause) never := by
    unfold understand
    split
    · rename_i hnone
      cases hnone
    · rename_i hempty
      exact absurd (Option.some.inj hempty) htext
    · rename_i text' _ hsome
      cases hsome
      rw [ends_bind]
      refine ⟨fun h => h.imp fun r m' hr e he => ?_, fun h => h.imp fun r m' hr => ?_⟩
      · subst he
        split at hr
        · rename_i h
          cases h
        · rename_i cause h
          exact ⟨cause, Except.error.inj h⟩
        · exact hr.elim
      · cases r with
        | ok reading => exact True.intro
        | error e =>
          obtain ⟨cause, rfl⟩ := hr e rfl
          exact True.intro
  rw [hparse, ends_attempt, Grammar.Parses]
  exact ⟨fun h => h.mono (fun _ _ _ => True.intro) fun e _ he => he e rfl,
    fun h => h.mono (fun r _ _ e he => nomatch he) fun e _ he e' he' => Except.error.inj he' ▸ he⟩

/-- **When a machine understands something or nothing**, whatever it hears: if every number that it can
meet can be read. -/
theorem understands_iff (ha : a.lexicon = Lexicon.build t words)
    (hbudget : 1 ≤ a.config.retryBudget) :
    (∀ (text : Option String) (m : Mind ℝ), m.personality.Reached a.lexicon → m.chance.Proper →
      Ends (a.understand text) m (fun _ _ => True) never) ↔
      ∀ cause, ¬ a.lexicon.Obscure a.config.vocabularyLearning cause := by
  refine Iff.trans ?_ (Grammar.parses_iff (g := a.grammar) ha hbudget)
  constructor
  · intro hall text m hreached hproper
    by_cases htext : text = ""
    · rw [htext]
      exact a.grammar.parses_silence _ m
    · exact (ends_understand_iff htext m).mp (hall _ m hreached hproper)
  · intro hall text m hreached hproper
    cases text with
    | none => exact True.intro
    | some text =>
      by_cases htext : text = ""
      · rw [htext]
        exact True.intro
      · exact (ends_understand_iff htext m).mpr (hall text m hreached hproper)

/-- **When a machine says anything or is silent**: if the words there are can be read and spelled. -/
theorem speaks_iff (lex : Lexicon) :
    (∀ x : Option Operation, ∃ ts, speak lex x = .ok ts) ↔ lex.Speakable := by
  rw [← Operation.encodes_iff]
  constructor
  · intro hall x e he
    obtain ⟨ts, hts⟩ := hall (some x)
    unfold speak at hts
    simp only [he] at hts
    split at hts
    · rename_i c hc
      exact ⟨c, Except.error.inj hc⟩
    · cases hts
  · intro hall x
    cases x with
    | none => exact ⟨[], rfl⟩
    | some x =>
      unfold speak
      cases hx : x.encode lex with
      | ok ts => exact ⟨ts, by simp only [hx]⟩
      | error e =>
        obtain ⟨c, rfl⟩ := hall x e hx
        exact ⟨[], by simp only [hx]⟩

/-- **What a machine hears and says** in any language. A text has a reading or none, unless a number
that cannot be read escapes; that happens to no machine only if there is no such number, of those that
can be spelled if the machine looks words up. An operation has words, or one is missing, or a word cannot
be spelled or read; the latter two happen to no operation only if the words there are can be. So a
machine understands something or nothing, and says something or nothing, in just these languages. -/
theorem hears_and_speaks (t : Taxonomy) (words : List (String × Entry)) :
    (∀ (g : Grammar) (probabilistic : Bool) (text : String) (m : Mind ℝ),
      g.lexicon = .build t words → m.personality.Reached g.lexicon → m.chance.Proper →
      Ends (g.parse probabilistic text) m (fun _ _ => True) fun e _ =>
        (∃ cause, e = .unparsed cause) ∨ g.Escaped probabilistic e) ∧
    (∀ (g : Grammar) (probabilistic : Bool), g.lexicon = .build t words → 1 ≤ g.retryBudget →
      ((∀ (text : String) (m : Mind ℝ), m.personality.Reached g.lexicon → m.chance.Proper →
          g.Parses probabilistic text m) ↔
        ∀ cause, ¬ g.lexicon.Obscure probabilistic cause)) ∧
    (∀ (x : Operation) (e : Fault), x.encode (.build t words) = .error e →
      (∃ c, e = .missing c) ∨ (∃ cause, e = .misspelling cause) ∨
        ∃ cause, e = .unreadableNumber cause) ∧
    ((∀ x : Operation, FailsOnly (∃ c, · = .missing c) (x.encode (.build t words))) ↔
      (Lexicon.build t words).Speakable) ∧
    ∀ a : Agent ℝ, a.lexicon = .build t words → 1 ≤ a.config.retryBudget →
      ((∀ (text : Option String) (m : Mind ℝ), m.personality.Reached a.lexicon → m.chance.Proper →
          Ends (a.understand text) m (fun _ _ => True) never) ↔
        ∀ cause, ¬ a.lexicon.Obscure a.config.vocabularyLearning cause) ∧
      ((∀ x : Option Operation, ∃ ts, speak a.lexicon x = .ok ts) ↔ a.lexicon.Speakable) := by
  refine ⟨fun g probabilistic text m hg hreached hproper => ?_,
    fun g probabilistic => Grammar.parses_iff, fun x e => Operation.encode_error,
    Operation.encodes_iff, fun a ha hbudget => ⟨understands_iff ha hbudget, speaks_iff a.lexicon⟩⟩
  have hne : g.lexicon.uniqueEntries ≠ [] := hg ▸ Lexicon.uniqueEntries_ne_nil t words
  exact Grammar.ends_parse_escaped hne ⟨Personality.reached_versed hreached, hproper⟩ text

namespace House

open Grammar.House (squareWords)

/-- The machines of the house understand something or nothing, and say something or nothing. With one
more word, for a number whose gloss looks like a digit and cannot be read, some text has neither a
reading nor none, and some operation is neither said nor passed over. -/
theorem hears_and_speaks_house :
    (∀ a : Agent ℝ, a.lexicon = Lexicon.house → 1 ≤ a.config.retryBudget →
      (∀ (text : Option String) (m : Mind ℝ), m.personality.Reached a.lexicon → m.chance.Proper →
        Ends (a.understand text) m (fun _ _ => True) never) ∧
      ∀ x : Option Operation, ∃ ts, speak a.lexicon x = .ok ts) ∧
    ∀ a : Agent ℝ, a.lexicon = Lexicon.build Taxonomy.house squareWords →
      1 ≤ a.config.retryBudget →
      (¬ ∀ (text : Option String) (m : Mind ℝ), m.personality.Reached a.lexicon →
        m.chance.Proper → Ends (a.understand text) m (fun _ _ => True) never) ∧
      ¬ ∀ x : Option Operation, ∃ ts, speak a.lexicon x = .ok ts := by
  constructor
  · intro a ha hbudget
    obtain ⟨-, -, -, -, hagent⟩ := hears_and_speaks Taxonomy.house Lexicon.houseWords
    obtain ⟨hhears, hspeaks⟩ := hagent a ha hbudget
    have hspeakable : a.lexicon.Speakable := ha ▸ Lexicon.sound_house.speakable
    exact ⟨hhears.mpr (Lexicon.not_obscure hspeakable.reads _), hspeaks.mpr hspeakable⟩
  · intro a ha hbudget
    obtain ⟨-, -, -, -, hagent⟩ := hears_and_speaks Taxonomy.house squareWords
    obtain ⟨hhears, hspeaks⟩ := hagent a ha hbudget
    have hmem : ("wa", ⟨.number, .adjective, "²"⟩) ∈ a.lexicon.entries := by
      rw [ha]
      decide +kernel
    have hunread : ∃ cause, (⟨.number, .adjective, "²"⟩ : Entry).number? = .error cause :=
      ⟨_, rfl⟩
    obtain ⟨cause, hcause⟩ := hunread
    refine ⟨fun h => hhears.mp h cause ⟨_, hmem, fun _ => ⟨_, rfl⟩, rfl, hcause⟩, fun h => ?_⟩
    obtain ⟨n, hn⟩ := (hspeaks.mp h).reads _ hmem rfl
    rw [hcause] at hn
    cases hn

end House

end Agent

end DeliTalk
