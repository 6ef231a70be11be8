import DeliTalk.Decimal.Binary64
import DeliTalk.Lexicon.House
import DeliTalk.Proofs.Derivation

/-!
# What a listener accepts

Whether a sentence is accepted is a matter of its words: the listener's skills and draws decide
what is understood, not whether something is. Every listener draws equally often.

* `Known`: every noun refers to an ingredient, and every number can be read.
* `Clause.understandChain_of_acts`, `Clause.understandChain_of_not_acts`: how a chain of clauses
  ends.
* `Sentence.understand_spec`: how any sentence of known words ends.
* `Grammar.sentence_iff_derivation`: what is accepted is what derives, in one way only.
-/

namespace DeliTalk

variable {R : Type} [Scalar R]

/-! ## 1. Known words -/

/-- Whether every number word can be read. -/
def Readable (ts : List Tagged) : Prop :=
  ∀ w ∈ ts, w.is .number = true → ∃ n, w.entry.map Entry.number? = some (.ok n)

theorem Readable.mono {ts us : List Tagged} (h : Readable ts) (hsub : us ⊆ ts) : Readable us :=
  fun w hw => h w (hsub hw)

/-- Whether every noun refers to an ingredient and every number word can be read. -/
structure Known (t : Taxonomy) (ts : List Tagged) : Prop where
  nouns : ∀ w ∈ ts, w.isNoun = true → ∃ i, t.referent w = .ok i
  numbers : ∀ w ∈ ts, w.is .number = true → ∃ n, w.entry.map Entry.number? = some (.ok n)

theorem Known.mono {t : Taxonomy} {ts us : List Tagged} (h : Known t ts) (hsub : us ⊆ ts) :
    Known t us :=
  ⟨fun w hw => h.nouns w (hsub hw), fun w hw => h.numbers w (hsub hw)⟩

/-- Known nouns serve no other purpose. -/
theorem Known.plain {t : Taxonomy} {ts : List Tagged} (h : Known t ts) : Plain ts := by
  intro w hw hn
  obtain ⟨i, hi⟩ := h.nouns w hw hn
  exact Taxonomy.plain_of_referent hi

theorem Known.readable {t : Taxonomy} {ts : List Tagged} (h : Known t ts) : Readable ts :=
  h.numbers

/-- Reading never stops at a number that can be read. -/
theorem Readable.read_ne_unreadable {ts : List Tagged} (h : Readable ts)
    (cause : Numeral.Unread) : Clause.read ts ≠ .unreadable cause := by
  have hbody : ∀ count us, Clause.readBody count us ≠ .unreadable cause := by
    intro count us
    unfold Clause.readBody
    split
    split
    split <;> simp
  unfold Clause.read
  split
  · simp
  · rename_i w rest
    split
    · rename_i hw
      obtain ⟨n, hn⟩ := h w List.mem_cons_self hw
      rw [hn]
      split
      · simp_all
      · exact hbody _ _
      · simp
    · exact hbody _ _

/-! ## 2. Clauses of known words -/

namespace Clause

/-- Whether the core of a clause is an operation, or else names the verb that has none; and
whether its place is known. -/
structure Settled (t : Taxonomy) (c : Clause) : Prop where
  core : (c.Acts ∧ ∃ x, c.core t = .ok x) ∨
    ¬ c.Acts ∧ ∃ text usage, c.core t = .error (.unsupportedVerb text usage)
  anchor : ∀ anchor side, c.placement = some (anchor, side) → ∃ a, t.referent anchor = .ok a

variable {t : Taxonomy}

theorem settled_of_read {ts rest : List Tagged} {c : Clause} (h : Known t ts)
    (hr : read ts = .clause c rest) : c.Settled t := by
  obtain ⟨⟨hmem, hn⟩, hanchor, -⟩ := nouns_of_read hr
  obtain ⟨i, hi⟩ := h.nouns _ hmem hn
  refine ⟨?_, fun anchor side hp => ?_⟩
  · simp only [Acts, Tagged.is_iff, core, hi]
    cases hu : c.verb.usage? with
    | none => exact Or.inr ⟨by simp, _, _, rfl⟩
    | some u => cases u <;> simp
  · obtain ⟨ha, han⟩ := hanchor anchor side hp
    exact h.nouns anchor ha han

/-- A clause whose verb has an operation has a gist. -/
theorem Settled.exists_gist {c : Clause} (h : c.Settled t) (ha : c.Acts) : ∃ g, c.Means t g := by
  rcases h.core with ⟨-, x, hx⟩ | ⟨hn, -⟩
  · exact means_of_core hx h.anchor
  · exact absurd ha hn

/-- Known clauses all have gists if their verbs have operations. -/
theorem exists_gists : ∀ more : List Clause, (∀ c ∈ more, c.Settled t) →
    (∀ c ∈ more, c.Acts) → ∃ gs, List.Forall₂ (Means t) more gs
  | [], _, _ => ⟨[], .nil⟩
  | c :: more, h, ha => by
    obtain ⟨g, hg⟩ := (h c List.mem_cons_self).exists_gist (ha c List.mem_cons_self)
    obtain ⟨gs, hgs⟩ := exists_gists more (fun d hd => h d (List.mem_cons_of_mem c hd))
      fun d hd => ha d (List.mem_cons_of_mem c hd)
    exact ⟨g :: gs, .cons hg hgs⟩

/-- A clause whose core is a fault ends with it, before any draw. -/
theorem perform_understand_fault {c : Clause} {e : Fault} (h : c.core t = .error e)
    (skills : Language R) (chance : Chance R) :
    (c.understand t skills).perform chance = (.error e, chance) := by
  have hplaced : (c.understandPlaced t skills).perform chance = (.error e, chance) := by
    unfold understandPlaced
    rw [Act.perform_bind, Act.perform_ofExcept, h]
  have hadverbs : ∀ adverbs : List Adverb,
      (understandAdverbs skills (c.understandPlaced t skills) adverbs).perform chance =
        (.error e, chance) := by
    intro adverbs
    induction adverbs with
    | nil => exact hplaced
    | cons a rest ih =>
      unfold understandAdverbs
      rw [Act.perform_bind, ih]
  unfold understand
  rw [Act.perform_bind, hadverbs]

/-- **Clauses whose verbs all have operations are understood**, after the same number of draws
by everyone. -/
theorem understandChain_of_acts {c : Clause} {more : List Clause} (rest : List Tagged)
    (h : ∀ d ∈ c :: more, d.Settled t) (ha : ∀ d ∈ c :: more, d.Acts) :
    ∃ n, ∀ (skills : Language R) (chance : Chance R), ∃ u,
      (understandChain t skills (.rest rest) c more).perform chance =
        (.ok u, chance.after n) := by
  obtain ⟨gs, hgs⟩ := exists_gists (c :: more) h ha
  cases hgs with
  | cons hg hgs =>
    exact ⟨_, fun skills chance => ⟨_, perform_understandChain skills rest chance hg hgs⟩⟩

/-- **A verb without an operation spoils the chain**, after the same number of draws for
everyone. -/
theorem understandChain_of_not_acts (ending : Ending) : ∀ {c : Clause} {more : List Clause},
    (∀ d ∈ c :: more, d.Settled t) → (¬ ∀ d ∈ c :: more, d.Acts) →
    ∃ n text usage, ∀ (skills : Language R) (chance : Chance R),
      (understandChain t skills ending c more).perform chance =
        (.error (.unsupportedVerb text usage), chance.after n)
  | c, more, h, ha => by
    rcases (h c List.mem_cons_self).core with ⟨hacts, -⟩ | ⟨-, text, usage, he⟩
    · obtain ⟨g, hg⟩ := (h c List.mem_cons_self).exists_gist hacts
      cases more with
      | nil => exact absurd (by simpa using hacts) ha
      | cons d more =>
        have ha' : ¬ ∀ b ∈ d :: more, b.Acts := fun hall =>
          ha fun b hb => (List.mem_cons.mp hb).elim (fun hb => hb ▸ hacts) (hall b)
        obtain ⟨n, text, usage, hn⟩ := understandChain_of_not_acts ending
          (fun b hb => h b (List.mem_cons_of_mem c hb)) ha'
        refine ⟨g.draws + n, text, usage, fun skills chance => ?_⟩
        unfold understandChain
        rw [Act.perform_bind, perform_understand skills chance hg]
        simp only [Act.perform_bind, hn, Chance.after_add]
    · refine ⟨0, text, usage, fun skills chance => ?_⟩
      cases more <;>
      · unfold understandChain
        rw [Act.perform_bind, perform_understand_fault he]
        rfl

end Clause

namespace Outline

/-- The clauses read of known words are known. -/
theorem settled_of_readMore {t : Taxonomy} : ∀ (more : List Clause) (ts : List Tagged),
    Known t ts → (readMore ts).1 = more → ∀ c ∈ more, c.Settled t
  | [], _, _, _ => by simp
  | c :: more, ts, h, heq => by
    rcases readMore_cases ts with hm | ⟨_, _, _, -, -, hm⟩ | ⟨w, us, d, left, rfl, -, hr, hm⟩ <;>
      rw [hm] at heq <;> cases heq
    have hus : Known t us := h.mono (List.subset_cons_self w us)
    have hleft := settled_of_readMore _ left (hus.mono (Clause.nouns_of_read hr).2.2) rfl
    intro b hb
    rcases List.mem_cons.mp hb with rfl | hb
    · exact Clause.settled_of_read hus hr
    · exact hleft b hb

/-- Words with readable numbers are read up to words that are no further clause. -/
theorem ending_of_readable : ∀ (more : List Clause) (ts : List Tagged),
    Readable ts → (readMore ts).1 = more → ∃ rest, (readMore ts).2 = .rest rest
  | [], ts, h, heq => by
    rcases readMore_cases ts with hm | ⟨w, us, cause, rfl, hr, -⟩ | ⟨_, _, _, _, -, -, -, hm⟩
    · exact ⟨ts, by rw [hm]⟩
    · exact absurd hr ((h.mono (List.subset_cons_self w us)).read_ne_unreadable cause)
    · rw [hm] at heq
      cases heq
  | c :: more, ts, h, heq => by
    rcases readMore_cases ts with hm | ⟨_, _, _, -, -, hm⟩ | ⟨w, us, d, left, rfl, -, hr, hm⟩ <;>
      rw [hm] at heq ⊢ <;> cases heq
    have hus := h.mono (List.subset_cons_self w us)
    exact ending_of_readable _ left (hus.mono (Clause.nouns_of_read hr).2.2) rfl

end Outline

/-! ## 3. Sentences of known words -/

namespace Sentence

/-- What an act of understanding may end with: something understood if the words have a tree,
and else nothing, or a verb without an operation. -/
def Judged (accepted : Prop) : Except Fault (Option (Understood R)) → Prop
  | .ok (some _) => accepted
  | .ok none => ¬ accepted
  | .error e => ¬ accepted ∧ ∃ text usage, e = .unsupportedVerb text usage

section Judged

omit [Scalar R]

variable {accepted : Prop} {r : Except Fault (Option (Understood R))}

theorem Judged.congr {b : Prop} (h : accepted ↔ b) (hr : Judged accepted r) : Judged b r := by
  rwa [← propext h]

theorem Judged.accepted_iff (h : Judged accepted r) : (∃ u, r = .ok (some u)) ↔ accepted := by
  rcases r with e | _ | u
  · refine ⟨?_, fun hd => absurd hd h.1⟩
    rintro ⟨u, hu⟩
    cases hu
  · refine ⟨?_, fun hd => absurd hd h⟩
    rintro ⟨u, hu⟩
    cases hu
  · exact ⟨fun _ => h, fun _ => ⟨u, rfl⟩⟩

theorem Judged.cases (h : Judged accepted r) :
    r = .ok none ∨ (∃ u, r = .ok (some u)) ∨
      ∃ text usage, r = .error (.unsupportedVerb text usage) := by
  rcases r with e | _ | u
  · obtain ⟨-, text, usage, rfl⟩ := h
    exact Or.inr (Or.inr ⟨text, usage, rfl⟩)
  · exact Or.inl rfl
  · exact Or.inr (Or.inl ⟨u, rfl⟩)

end Judged

variable {t : Taxonomy}

/-- **Clauses of known words** are understood by everyone or by no one. -/
theorem understandAll_spec {ts : List Tagged} (h : Known t ts) :
    ∃ n, ∀ (skills : Language R) (chance : Chance R), ∃ r,
      (understandAll t skills ts).perform chance = (r, chance.after n) ∧
        Judged (∃ d : Derivation.Conjoined, d.words = ts) r := by
  cases hr : Clause.read ts with
  | unreadable cause => exact absurd hr (h.readable.read_ne_unreadable cause)
  | none =>
    have hread : Outline.read ts = .none := by simp [Outline.read, hr]
    refine ⟨0, fun skills chance => ⟨.ok none, ?_, ?_⟩⟩
    · unfold understandAll
      rw [hread]
      rfl
    · rintro ⟨d, rfl⟩
      rw [Derivation.outline_words (Derivation.Conjoined.plain_heads h.plain)] at hread
      cases hread
  | clause c left =>
    have hleft := h.mono (Clause.nouns_of_read hr).2.2
    obtain ⟨rest, hend⟩ := Outline.ending_of_readable _ left hleft.readable rfl
    have hsettled : ∀ d ∈ c :: (Outline.readMore left).1, d.Settled t := by
      intro d hd
      rcases List.mem_cons.mp hd with rfl | hd
      · exact Clause.settled_of_read h hr
      · exact Outline.settled_of_readMore _ left hleft rfl d hd
    have hread : Outline.read ts = .outline ⟨c, (Outline.readMore left).1, .rest rest⟩ := by
      simp [Outline.read, hr, ← hend]
    by_cases hacts : ∀ d ∈ c :: (Outline.readMore left).1, d.Acts
    · obtain ⟨n, hn⟩ := Clause.understandChain_of_acts (R := R) rest hsettled hacts
      refine ⟨n, fun skills chance => ?_⟩
      obtain ⟨u, hu⟩ := hn skills chance
      refine ⟨.ok (if rest = [] then some u else none), ?_, ?_⟩
      · unfold understandAll
        rw [hread]
        simp only [Act.perform_bind, hu, Outline.isWhole]
        cases rest <;> rfl
      · by_cases hrest : rest = []
        · rw [if_pos hrest]
          obtain ⟨n', rfl⟩ := Derivation.exists_numbered hr (hacts c List.mem_cons_self)
          exact Outline.exists_conjoined _ n' left (Prod.ext rfl (hrest ▸ hend))
            fun d hd => hacts d (List.mem_cons_of_mem c hd)
        · rw [if_neg hrest]
          rintro ⟨d, rfl⟩
          rw [Derivation.outline_words (Derivation.Conjoined.plain_heads h.plain)] at hread
          simp only [Outline.Reading.outline.injEq, Outline.mk.injEq, Ending.rest.injEq] at hread
          exact hrest hread.2.2.symm
    · obtain ⟨n, text, usage, hn⟩ :=
        Clause.understandChain_of_not_acts (R := R) (.rest rest) hsettled hacts
      refine ⟨n, fun skills chance => ⟨.error (.unsupportedVerb text usage), ?_, ?_, text, usage,
        rfl⟩⟩
      · unfold understandAll
        rw [hread]
        simp only [Act.perform_bind, hn]
      · rintro ⟨d, rfl⟩
        rw [Derivation.outline_words (Derivation.Conjoined.plain_heads h.plain)] at hread
        simp only [Outline.Reading.outline.injEq, Outline.mk.injEq] at hread
        obtain ⟨rfl, hmore, -⟩ := hread
        exact hacts (hmore ▸ d.acts)

theorem single?_eq_none {w : Tagged} : single? w = none ↔
    ¬ (w.is .greeting = true ∨ w.is .affirmation = true ∨ w.is .negation = true) := by
  simp only [Tagged.is_iff, single?]
  cases w.usage? with
  | none => simp
  | some u => cases u <;> simp

/-- Whether some words are one word that stands for itself. -/
def Alone (w : Tagged) (rest : List Tagged) : Prop := rest = [] ∧ ∃ x, single? w = some x

/-- A sentence that is no single word is a question or a statement. -/
theorem understand_of_not_alone {w : Tagged} {rest : List Tagged} (h : ¬ Alone w rest)
    (skills : Language R) : understand t skills (w :: rest) =
      if w.is .question then do
        let understood ← understandAll t skills rest
        return understood.map fun u => (u.1.question, u.2)
      else understandAll t skills (w :: rest) := by
  cases rest with
  | cons v rest => rfl
  | nil =>
    cases hx : single? w with
    | none => simp only [understand, hx]
    | some x => exact absurd ⟨rfl, x, hx⟩ h

theorem not_single_of_not_alone {w v : Tagged} {rest : List Tagged} (h : ¬ Alone w rest)
    (hv : v.is .greeting = true ∨ v.is .affirmation = true ∨ v.is .negation = true) :
    [v] ≠ w :: rest := by
  intro heq
  obtain ⟨rfl, hrest⟩ := List.cons.inj heq
  refine h ⟨hrest.symm, Option.ne_none_iff_exists'.mp fun hx => ?_⟩
  exact single?_eq_none.mp hx hv

/-- A question derives if and only if its clauses do. -/
theorem derives_question {w : Tagged} {rest : List Tagged} (h : Plain (w :: rest))
    (ha : ¬ Alone w rest) (hq : w.is .question = true) :
    (∃ d : Derivation.Conjoined, d.words = rest) ↔
      ∃ d : Derivation.Sentence, d.words = w :: rest := by
  refine ⟨fun ⟨d, hd⟩ => ⟨.question w hq d, congrArg (w :: ·) hd⟩, ?_⟩
  rintro ⟨d, hd⟩
  cases d with
  | single v hv => exact absurd hd (not_single_of_not_alone ha hv)
  | question v _ c => exact ⟨c, (List.cons.inj hd).2⟩
  | statement c =>
    rw [← hd] at h
    have hheads := Derivation.Conjoined.plain_heads h
    exact absurd hd (Derivation.Conjoined.words_ne_question hheads hq rest)

/-- A statement derives if and only if its clauses do. -/
theorem derives_statement {w : Tagged} {rest : List Tagged} (ha : ¬ Alone w rest)
    (hq : ¬ w.is .question = true) :
    (∃ d : Derivation.Conjoined, d.words = w :: rest) ↔
      ∃ d : Derivation.Sentence, d.words = w :: rest := by
  refine ⟨fun ⟨d, hd⟩ => ⟨.statement d, hd⟩, ?_⟩
  rintro ⟨d, hd⟩
  cases d with
  | single v hv => exact absurd hd (not_single_of_not_alone ha hv)
  | question v hv c =>
    cases (List.cons.inj hd).1
    exact absurd hv hq
  | statement c => exact ⟨c, hd⟩

/-- **Any sentence of known words**: everyone draws equally often, and understands something if
and only if the words derive. -/
theorem understand_spec {ts : List Tagged} (h : Known t ts) :
    ∃ n, ∀ (skills : Language R) (chance : Chance R), ∃ r,
      (understand t skills ts).perform chance = (r, chance.after n) ∧
        Judged (∃ d : Derivation.Sentence, d.words = ts) r := by
  cases ts with
  | nil =>
    refine ⟨0, fun skills chance => ⟨.ok none, rfl, ?_⟩⟩
    rintro ⟨d, hd⟩
    exact d.words_ne_nil hd
  | cons w rest =>
    by_cases ha : Alone w rest
    · obtain ⟨rfl, x, hx⟩ := ha
      refine ⟨0, fun skills chance => ⟨.ok (some (x, .unused)), ?_, ?_⟩⟩
      · simp [understand, hx]
      · by_contra hc
        have hw : single? w = none := single?_eq_none.mpr fun hw => hc ⟨.single w hw, rfl⟩
        rw [hw] at hx
        cases hx
    · by_cases hq : w.is .question = true
      · have hiff := derives_question h.plain ha hq
        obtain ⟨n, hn⟩ := understandAll_spec (R := R) (h.mono (List.subset_cons_self w rest))
        refine ⟨n, fun skills chance => ?_⟩
        obtain ⟨r, hr, hj⟩ := hn skills chance
        rw [understand_of_not_alone ha, if_pos hq, Act.perform_bind, hr]
        cases r with
        | error e => exact ⟨.error e, rfl, Judged.congr (R := R) hiff hj⟩
        | ok u =>
          cases u with
          | none => exact ⟨.ok none, rfl, fun hd => hj (hiff.mpr hd)⟩
          | some u => exact ⟨.ok (some (u.1.question, u.2)), rfl, hiff.mp hj⟩
      · obtain ⟨n, hn⟩ := understandAll_spec (R := R) h
        refine ⟨n, fun skills chance => ?_⟩
        obtain ⟨r, hr, hj⟩ := hn skills chance
        rw [understand_of_not_alone ha, if_neg hq]
        exact ⟨r, hr, hj.congr (derives_statement ha hq)⟩

end Sentence

/-! ## 4. Listeners -/

/-- **A listener accepts exactly the grammar**: of known words, an operation comes out if and only
if they derive. They derive in one way only, and every listener draws equally often. Where they do
not derive, nothing comes out, or a verb is named that has no operation. -/
theorem Grammar.sentence_iff_derivation (g : Grammar) {ts : List Tagged}
    (h : Known g.lexicon.taxonomy ts) :
    (∃ n, ∀ m : Mind R, ∃ r,
      (g.sentence ts).perform m = (r, { m with chance := m.chance.after n }) ∧
      ((∃ u, r = .ok (some u)) ↔ ∃ d : Derivation.Sentence, d.words = ts) ∧
      (r = .ok none ∨ (∃ u, r = .ok (some u)) ∨
        ∃ text usage, r = .error (.unsupportedVerb text usage))) ∧
    ∀ d e : Derivation.Sentence, d.words = ts → e.words = ts → d = e := by
  obtain ⟨n, hn⟩ := Sentence.understand_spec (R := R) h
  refine ⟨⟨n, fun m => ?_⟩, ?_⟩
  · obtain ⟨r, hr, hj⟩ := hn m.personality.language m.chance
    refine ⟨r, ?_, hj.accepted_iff, hj.cases⟩
    unfold sentence
    simp only [Act.perform_bind, Act.perform_get, Mind.lucky, Act.perform_on, hr]
  · rintro d e rfl he
    exact Derivation.Sentence.eq_of_words h.plain he.symm

/-- One cheese, please: a number, a category without an entry of its own, and a verb. -/
def oneCheese : List Tagged :=
  [⟨⟨[.consonantFirst .w .i]⟩, some .adjective, some ⟨.number, .adjective, "one"⟩⟩,
    ⟨⟨[.consonantFirst .s .a, .consonantFirst .w .a]⟩, some .noun, none⟩,
    ⟨⟨[.consonantFirst .t .a]⟩, some .verb, some ⟨.desire, .verb, "want"⟩⟩]

theorem known_oneCheese : Known Taxonomy.house oneCheese := by
  refine ⟨fun w hw hn => ?_, fun w hw hn => ?_⟩ <;>
    simp only [oneCheese, List.mem_cons, List.not_mem_nil, or_false] at hw
  · rcases hw with rfl | rfl | rfl
    · cases hn
    · exact ⟨_, rfl⟩
    · cases hn
  · rcases hw with rfl | rfl | rfl
    · exact ⟨some 1, by decide +kernel⟩
    · cases hn
    · cases hn

/-- In the house everyone understands something when one cheese is asked for. -/
theorem sentence_oneCheese : Known Taxonomy.house oneCheese ∧ ∃ n, ∀ m : Mind Float, ∃ u,
    (Grammar.sentence ⟨Lexicon.house, 1⟩ oneCheese).perform m =
      (.ok (some u), { m with chance := m.chance.after n }) := by
  obtain ⟨⟨n, hn⟩, -⟩ :=
    Grammar.sentence_iff_derivation (R := Float) ⟨Lexicon.house, 1⟩ known_oneCheese
  refine ⟨known_oneCheese, n, fun m => ?_⟩
  obtain ⟨r, hr, hiff, -⟩ := hn m
  obtain ⟨u, rfl⟩ := hiff.mpr ⟨.statement (.last (.number _ 1 rfl (by decide +kernel)
    Nat.one_ne_zero (.bare (.bare ⟨_, _, rfl, rfl, Or.inl rfl⟩)))), rfl⟩
  exact ⟨u, hr⟩

end DeliTalk
