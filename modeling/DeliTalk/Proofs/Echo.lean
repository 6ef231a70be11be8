import DeliTalk.Proofs.Erasure
import DeliTalk.Proofs.Grasp

/-!
# What was understood can be said again

Every shape of what is understood has words, which are heard as it, with two exceptions: to remove
everything is heard as to remove for good, and a question has no words within a chain. A number
keeps its word only if that word is reached: the search for it reads the number words in front of
it, and stops at one that looks like digits and is none.

* `Lexicon.Legible`: numbers whose word is reached; in a sound language, all that have one.
* `Operation.Repeatable`: what the two exceptions leave.
* `Operation.Graspable.sayable`, `Operation.Graspable.encode_illegible`: what has words, and what
  has none.
* `Grammar.said_again`: what was understood is said again, and heard as it was.
-/

namespace DeliTalk

open Act

/-! ## 1. Numbers and their words -/

namespace Lexicon

/-- Whether a word for a number is reached from the front of a list, past words that can be
read. -/
inductive Reaches (n : Nat) : List (String × Entry) → Prop
  | here {p es} (hp : p.2.IsNumber n) : Reaches n (p :: es)
  | past {q es} (hq : q.2.Reads) (h : Reaches n es) : Reaches n (q :: es)

/-- Whether a number has a word that is reached. -/
def Legible (lex : Lexicon) (n : Nat) : Prop := Reaches n lex.entries

section Numbers

variable {n : Nat} {es : List (String × Entry)}

theorem Reaches.exists_findNumber (h : Reaches n es) : ∃ text, findNumber n es = .ok text := by
  induction h with
  | here hp => exact ⟨_, findNumber_of_isNumber hp⟩
  | @past q es hq h ih =>
    by_cases hnumber : q.2.IsNumber n
    · exact ⟨q.1, findNumber_of_isNumber hnumber⟩
    · rw [findNumber_of_reads hq hnumber]
      exact ih

/-- The search for a number whose word is not reached stops at one that cannot be read. -/
theorem findNumber_of_not_reaches : ∀ {es : List (String × Entry)},
    (∃ p ∈ es, p.2.IsNumber n) → ¬ Reaches n es →
    ∃ cause, findNumber n es = .error (.unreadableNumber cause)
  | [], ⟨p, hp, _⟩, _ => by cases hp
  | q :: es, ⟨p, hp, hnumber⟩, h => by
    have hq : ¬ q.2.IsNumber n := fun hq => h (.here hq)
    by_cases hreads : q.2.Reads
    · rw [findNumber_of_reads hreads hq]
      refine findNumber_of_not_reaches ⟨p, ?_, hnumber⟩ fun hes => h (.past hreads hes)
      rcases List.mem_cons.mp hp with rfl | hp
      · exact absurd hnumber hq
      · exact hp
    · exact findNumber_of_not_reads hreads

/-- Where every number word can be read, each is reached. -/
theorem reaches_of_reads : ∀ {es : List (String × Entry)}, (∀ p ∈ es, p.2.Reads) →
    (∃ p ∈ es, p.2.IsNumber n) → Reaches n es
  | [], _, ⟨p, hp, _⟩ => by cases hp
  | q :: es, hreads, ⟨p, hp, hnumber⟩ => by
    rcases List.mem_cons.mp hp with rfl | hp
    · exact .here hnumber
    · exact .past (hreads q List.mem_cons_self)
        (reaches_of_reads (fun r hr => hreads r (List.mem_cons_of_mem q hr)) ⟨p, hp, hnumber⟩)

end Numbers

variable {n : Nat}

/-- **In a sound language every number that has a word is legible.** -/
theorem Sound.legible_of_counts {t : Taxonomy} {words : List (String × Entry)}
    (h : Sound t words) (hn : (build t words).Counts n) : (build t words).Legible n :=
  reaches_of_reads (fun _ => readable_of_mem h) hn

/-- **A legible number has a word.** -/
theorem Clear.exists_wordForNumber {t : Taxonomy} {words : List (String × Entry)}
    (h : Clear t words) (hn : (build t words).Legible n) :
    ∃ w, (build t words).wordForNumber n = .ok w := by
  obtain ⟨text, htext⟩ := Reaches.exists_findNumber hn
  obtain ⟨e, he, hu, -⟩ := mem_of_findNumber htext
  obtain ⟨w, hw, -⟩ := h.annotated_of_mem he (by rw [hu]; simp)
  refine ⟨w, ?_⟩
  unfold wordForNumber
  rw [htext]
  exact hw

/-- **A number that is not legible cannot be said**, even if it has a word. -/
theorem wordForNumber_of_not_legible {lex : Lexicon} (hcounts : lex.Counts n)
    (hn : ¬ lex.Legible n) : ∃ cause, lex.wordForNumber n = .error (.unreadableNumber cause) := by
  obtain ⟨cause, hcause⟩ := findNumber_of_not_reaches hcounts hn
  refine ⟨cause, ?_⟩
  unfold wordForNumber
  rw [hcause]
  rfl

end Lexicon

/-! ## 2. What has words, and what has none -/

namespace Operation

/-- Everything an operation consists of, itself included. -/
def parts : Operation → List Operation
  | repeated n x => repeated n x :: parts x
  | compound x y => compound x y :: (parts x ++ parts y)
  | persist x => persist x :: parts x
  | x => [x]

theorem mem_parts_self (x : Operation) : x ∈ x.parts := by
  cases x <;> simp [parts]

/-- Whether an operation removes nothing entirely and asks for nothing within a chain. -/
structure Repeatable (x : Operation) : Prop where
  lasting : ∀ i, removeAll i ∉ x.parts
  apart : ∀ y z i, compound y z ∈ x.parts → checkFor i ∉ (compound y z).parts

/-- Whether every number of an operation has a word that is reached. -/
def Legible (lex : Lexicon) (x : Operation) : Prop :=
  ∀ n y, repeated n y ∈ x.parts → lex.Legible n

section Shapes

variable {t : Taxonomy} {lex : Lexicon} {x y z : Operation} {n : Nat}

theorem repeated_mem_parts_compound : repeated n z ∈ (compound x y).parts ↔
    repeated n z ∈ x.parts ∨ repeated n z ∈ y.parts := by
  simp [parts]

theorem legible_compound : (compound x y).Legible lex ↔ x.Legible lex ∧ y.Legible lex := by
  simp only [Legible, repeated_mem_parts_compound, or_imp, forall_and]

/-- An edit of one ingredient has no number. -/
theorem Simple.repeated_notMem (h : Simple t x) : repeated n y ∉ x.parts := by
  induction h with
  | persist _ ih => simpa [parts] using ih
  | _ => simp [parts]

theorem Simple.legible (h : Simple lex.taxonomy x) : x.Legible lex :=
  fun _ _ hy => absurd hy h.repeated_notMem

theorem Phrased.counts (h : Phrased lex x) (hy : Operation.repeated n y ∈ x.parts) :
    lex.Counts n := by
  cases h with
  | once h => exact absurd hy h.repeated_notMem
  | repeated hn hw h =>
    rcases List.mem_cons.mp hy with heq | hy
    · cases heq
      exact hw
    · exact absurd hy h.repeated_notMem

/-- Every number of edits in a row has a word. -/
theorem Chained.counts (h : Chained lex x) (hy : repeated n y ∈ x.parts) : lex.Counts n := by
  induction h with
  | last h => exact h.counts hy
  | compound hx hz ih =>
    rcases repeated_mem_parts_compound.mp hy with hy | hy
    · exact hx.counts hy
    · exact ih hy

theorem legible_repeated (h : Simple lex.taxonomy x) :
    (repeated n x).Legible lex ↔ lex.Legible n := by
  refine ⟨fun hl => hl n x List.mem_cons_self, fun hn k y hy => ?_⟩
  rcases List.mem_cons.mp hy with heq | hy
  · cases heq
    exact hn
  · exact absurd hy h.repeated_notMem

/-- What removes nothing entirely is heard as it is. -/
theorem Simple.heard_eq (h : Simple t x) (hx : ∀ i, Operation.removeAll i ∉ x.parts) :
    x.heard = x := by
  induction h with
  | @removeAll i hi => exact absurd List.mem_cons_self (hx i)
  | persist h ih => rw [heard, ih fun i hi => hx i (List.mem_cons_of_mem _ hi)]
  | _ => rfl

theorem Phrased.heard_eq (h : Phrased lex x) (hx : ∀ i, removeAll i ∉ x.parts) :
    x.heard = x := by
  cases h with
  | once h => exact h.heard_eq hx
  | repeated hn hw h => rw [heard, h.heard_eq fun i hi => hx i (List.mem_cons_of_mem _ hi)]

theorem Phrased.ne_compound (h : Phrased lex x) (y z : Operation) :
    x ≠ Operation.compound y z := by
  rintro rfl
  cases h with
  | once h => cases h

/-- A chain that leans to the right is heard as it is. -/
theorem Chained.heard_eq (h : Chained lex x) (hx : ∀ i, removeAll i ∉ x.parts) :
    x.heard = x := by
  induction h with
  | last h => exact h.heard_eq hx
  | @compound y z hy hz ih =>
    have hyheard := hy.heard_eq fun i hi =>
      hx i (List.mem_cons_of_mem _ (List.mem_append_left _ hi))
    have hzheard := ih fun i hi => hx i (List.mem_cons_of_mem _ (List.mem_append_right _ hi))
    rw [heard, hyheard, hzheard, andThen_of_not_compound hy.ne_compound]

/-- What stands alone: a word, or the question for one ingredient. -/
inductive Single (lex : Lexicon) : Operation → Prop
  | finish : Single lex finish
  | affirm : Single lex affirm
  | negate : Single lex negate
  | checkFor {i} (hi : Named lex.taxonomy i) : Single lex (checkFor i)

theorem Single.legible (h : Single lex x) : x.Legible lex := by
  intro n y hy
  cases h <;> simp [parts] at hy

theorem Single.heard_eq (h : Single lex x) : x.heard = x := by
  cases h <;> rfl

theorem Single.sayable (h : Single lex x) : Sayable lex x := by
  cases h with
  | finish => exact .finish
  | affirm => exact .affirm
  | negate => exact .negate
  | checkFor hi => exact .checkFor hi

/-- What can be repeated, stands alone or is edits in a row. -/
theorem Graspable.shape (h : Graspable lex x) (hx : x.Repeatable) :
    Single lex x ∨ Chained lex x := by
  cases h with
  | finish => exact Or.inl .finish
  | affirm => exact Or.inl .affirm
  | negate => exact Or.inl .negate
  | statement h => exact Or.inr h
  | question h =>
    cases h with
    | last h =>
      obtain ⟨i, hi, hquestion⟩ := h.exists_question
      rw [hquestion]
      exact Or.inl (.checkFor hi)
    | @compound y z hy hz =>
      -- The first clause of a chain is asked about by a question within a chain.
      obtain ⟨i, -, hquestion⟩ := hy.exists_question
      refine absurd ?_ (hx.apart y.question z.question i (mem_parts_self _))
      rw [hquestion]
      simp [parts]

end Shapes

section Words

variable {t : Taxonomy} {words : List (String × Entry)} (h : Lexicon.Clear t words) {g : Grammar}
  (hg : g.lexicon = Lexicon.build t words) {x : Operation}

include h hg

theorem Phrased.clausal (hx : Phrased g.lexicon x) (hl : x.Legible g.lexicon) :
    Clausal g.lexicon x := by
  cases hx with
  | once hx => exact .once hx
  | @repeated n y hn hw hx =>
    refine .repeated hn ?_ hx
    rw [legible_repeated hx, hg] at hl
    rw [hg]
    exact h.exists_wordForNumber hl

/-- **Edits in a row whose numbers are legible can be said.** -/
theorem Chained.joined (hx : Chained g.lexicon x) (hl : x.Legible g.lexicon) :
    Joined g.lexicon x := by
  induction hx with
  | last hx => exact .one (hx.clausal h hg hl)
  | compound hx hy ih =>
    obtain ⟨hlx, hly⟩ := legible_compound.mp hl
    exact .compound (.one (hx.clausal h hg hlx)) (ih hly)

omit h hg in
theorem Phrased.encode_illegible {lex : Lexicon} (hx : Phrased lex x) (hl : ¬ x.Legible lex) :
    ∃ cause, x.encode lex = .error (.unreadableNumber cause) := by
  cases hx with
  | once hx => exact absurd hx.legible hl
  | repeated hn hw hx =>
    rw [legible_repeated hx] at hl
    obtain ⟨cause, hcause⟩ := Lexicon.wordForNumber_of_not_legible hw hl
    refine ⟨cause, ?_⟩
    rw [encode, hcause]
    rfl

/-- **Edits in a row cannot be said if a number is not legible.** -/
theorem Chained.encode_illegible (hx : Chained g.lexicon x) (hl : ¬ x.Legible g.lexicon) :
    ∃ cause, x.encode g.lexicon = .error (.unreadableNumber cause) := by
  induction hx with
  | last hx => exact hx.encode_illegible hl
  | @compound y z hy hz ih =>
    rw [encode]
    -- The first clause is said before the others are looked at, so it must be known to have words.
    by_cases hly : y.Legible g.lexicon
    · obtain ⟨cause, hcause⟩ := ih fun hlz => hl (legible_compound.mpr ⟨hly, hlz⟩)
      obtain ⟨ts, n, hsaid, -⟩ := (hy.clausal h hg hly).exists_said h hg
      obtain ⟨w, hw, -⟩ := exists_function_word h hg (u := .conjunction) (by simp)
      refine ⟨cause, ?_⟩
      rw [hsaid.encode, hw, hcause]
      rfl
    · obtain ⟨cause, hcause⟩ := hy.encode_illegible hly
      refine ⟨cause, ?_⟩
      rw [hcause]
      rfl

/-- **What can be repeated, can be said** if its numbers are legible, and is heard as it is. -/
theorem Graspable.sayable (hx : Graspable g.lexicon x) (hr : x.Repeatable)
    (hl : x.Legible g.lexicon) : Sayable g.lexicon x ∧ x.heard = x := by
  rcases hx.shape hr with hsingle | hchain
  · exact ⟨hsingle.sayable, hsingle.heard_eq⟩
  · exact ⟨.edit (hchain.joined h hg hl), hchain.heard_eq hr.lasting⟩

/-- **It cannot be said** if one of its numbers is not legible. -/
theorem Graspable.encode_illegible (hx : Graspable g.lexicon x) (hr : x.Repeatable)
    (hl : ¬ x.Legible g.lexicon) :
    ∃ cause, x.encode g.lexicon = .error (.unreadableNumber cause) := by
  rcases hx.shape hr with hsingle | hchain
  · exact absurd hsingle.legible hl
  · exact hchain.encode_illegible h hg hl

end Words

/-- **In a sound language** all its numbers are legible. -/
theorem Graspable.legible {t : Taxonomy} {words : List (String × Entry)}
    (h : Lexicon.Sound t words) {x : Operation} (hx : Graspable (Lexicon.build t words) x)
    (hr : x.Repeatable) : x.Legible (Lexicon.build t words) := by
  rcases hx.shape hr with hsingle | hchain
  · exact hsingle.legible
  · exact fun n y hy => h.legible_of_counts (hchain.counts hy)

end Operation

/-! ## 3. Said again -/

namespace Grammar

open Operation

variable {t : Taxonomy} {words : List (String × Entry)}

/-- **What was understood is said again.** In a clear language, whatever the listener's skills and
draws were when it understood a text: if the operation removes nothing entirely and asks for
nothing within a chain, it can be said exactly if its numbers are legible, and a listener whose
rolls all succeed hears it again at the first attempt, with the skills it takes. A number that is
not legible stops the saying. Numbers are always legible in a sound language. -/
theorem said_again (h : Lexicon.Clear t words) {R : Type} [Scalar R] {retries : Int}
    {text : String} {m m' : Mind R} {r : Reading R}
    (hparse : (parse ⟨Lexicon.build t words, retries⟩ false text).perform m = (.ok r, m'))
    (hr : r.operation.Repeatable) :
    (Lexicon.Sound t words → r.operation.Legible (Lexicon.build t words)) ∧
    (r.operation.Legible (Lexicon.build t words) →
      ∃ ts, r.operation.encode (Lexicon.build t words) = .ok ts ∧
        ∀ (budget : Int) (n : Mind ℝ),
          (n.personality.language.catches n.chance).Succeed r.operation.rolls →
          ∃ again, (parse ⟨Lexicon.build t words, budget⟩ false (Phrase.render ts)).perform n =
              (.ok again, { n with chance := n.chance.after r.operation.rolls.length }) ∧
            again.attempts = 1 ∧ again.operation.same r.operation = true ∧
            again.skills = r.operation.skills) ∧
    (¬ r.operation.Legible (Lexicon.build t words) →
      ∃ cause, r.operation.encode (Lexicon.build t words) =
        .error (.unreadableNumber cause)) := by
  let g : Grammar := ⟨Lexicon.build t words, retries⟩
  have hgrasp : Graspable g.lexicon r.operation :=
    (returns_parse_graspable h rfl text).of_perform hparse
  refine ⟨fun hs => hgrasp.legible hs hr, fun hl => ?_, hgrasp.encode_illegible h rfl hr⟩
  obtain ⟨hsay, hheard⟩ := hgrasp.sayable h rfl hr hl
  -- The words do not depend on who listens: those for a listener who catches everything will do.
  obtain ⟨ts, -, hts, -⟩ :=
    comesBack_sayable (g := g) h rfl attentive hsay (attentive_succeed _)
  refine ⟨ts, hts, fun budget n hn => ?_⟩
  rw [← hheard] at hn
  obtain ⟨ts', again, hts', hperform, hattempts, hsame, hskills⟩ :=
    comesBack_sayable (g := ⟨Lexicon.build t words, budget⟩) h rfl n hsay hn
  cases hts.symm.trans hts'
  rw [hheard] at hperform hsame
  exact ⟨again, hperform, hattempts, hsame, hskills⟩

namespace House

/-- The words of the house and one more for a number, whose gloss looks like a digit and cannot be
read. -/
def squareWords : List (String × Entry) :=
  ("wa", ⟨.number, .adjective, "²"⟩) :: Lexicon.houseWords

theorem clear_squareWords : Lexicon.Clear Taxonomy.house squareWords where
  tree := Lexicon.sound_house.tree
  spelled := List.forall_mem_cons.mpr
    ⟨Lexicon.exists_of_isOk (by decide +kernel), Lexicon.sound_house.spelled⟩
  apart := List.forall_mem_cons.mpr ⟨by decide +kernel, Lexicon.sound_house.apart⟩
  plain := List.forall_mem_cons.mpr ⟨by decide, Lexicon.sound_house.plain⟩
  complete u := Lexicon.exists_of_isOk (by cases u <;> decide +kernel)
  verbs := Lexicon.verbs_of_hasVerb (by decide +kernel) (by decide +kernel)

/-- One cheese. -/
def wantOne : Derivation.Sentence :=
  .statement (.last (.number (word (.consonantFirst .w .i) .adjective .number "one") 1 rfl
    (by decide +kernel) (by decide) (.bare (.bare (want [.consonantFirst .w .a])))))

theorem exists_of_same_repeated_add {x : Operation} {n : Nat} {i : Ingredient} {s : Relative}
    (h : x.same (.repeated n (.add i s)) = true) : ∃ j r, x = .repeated n (.add j r) := by
  cases x with
  | repeated m y =>
    cases y with
    | add j r =>
      simp only [same, Bool.and_eq_true, beq_iff_eq] at h
      exact ⟨j, r, by rw [h.1]⟩
    | _ => simp [same] at h
  | _ => cases h

theorem repeatable_add (n : Nat) (i : Ingredient) (s : Relative) :
    (Operation.repeated n (.add i s)).Repeatable := by
  constructor <;> simp [parts]

/-- It is understood as it is meant wherever its words are known. -/
theorem perform_wantOne (words : List (String × Entry))
    (h : annotate ⟨Lexicon.build Taxonomy.house words, 30⟩ (wantOne.words.map (·.word)) =
      wantOne.words) : ∃ (r : Reading ℝ) (m : Mind ℝ) (i : Ingredient) (s : Relative),
      (parse ⟨Lexicon.build Taxonomy.house words, 30⟩ false (Phrase.render wantOne.words)).perform
        (listener fun _ => true) = (.ok r, m) ∧ r.operation = .repeated 1 (.add i s) := by
  have hrefer : Derivation.NounsRefer Taxonomy.house wantOne.words := by
    have hall : ∀ w ∈ wantOne.words, w.isNoun = true →
        (Taxonomy.house.referent w).isOk = true := by decide +kernel
    exact fun w hw hn => Lexicon.exists_of_isOk (hall w hw hn)
  obtain ⟨u, hu, hconveys⟩ := Sentence.perform_understand hrefer
    (listener fun _ => true).personality.language (listener fun _ => true).chance
  rw [catches_listener] at hconveys
  have hsame : u.1.same (.repeated 1 (.add ⟨"cheese", "wa", none⟩ .top)) = true := by
    rw [hconveys.operation]
    decide +kernel
  obtain ⟨i, s, heq⟩ := exists_of_same_repeated_add hsame
  have hsentence := perform_sentence (g := ⟨Lexicon.build Taxonomy.house words, 30⟩)
    (m := listener fun _ => true) hu
  rw [← h] at hsentence
  exact ⟨_, _, i, s, perform_parse (by decide) (by decide) hsentence, heq⟩

/-- One cheese is said again in the house, and cannot be said where the search for its number stops
at the word in front of it. -/
theorem said_again_one :
    (∃ (r : Reading ℝ) (m : Mind ℝ) (ts : List Tagged),
      (parse ⟨Lexicon.house, 30⟩ false (Phrase.render wantOne.words)).perform
          (listener fun _ => true) = (.ok r, m) ∧
        r.operation.Repeatable ∧ r.operation.encode Lexicon.house = .ok ts ∧
        ∃ again n, (parse ⟨Lexicon.house, 30⟩ false (Phrase.render ts)).perform
            (attentive : Mind ℝ) = (.ok again, n) ∧ again.operation.same r.operation = true) ∧
    ∃ (r : Reading ℝ) (m : Mind ℝ) (cause : Numeral.Unread),
      (parse ⟨Lexicon.build Taxonomy.house squareWords, 30⟩ false
          (Phrase.render wantOne.words)).perform (listener fun _ => true) = (.ok r, m) ∧
        r.operation.Repeatable ∧
        r.operation.encode (Lexicon.build Taxonomy.house squareWords) =
          .error (.unreadableNumber cause) := by
  constructor
  · obtain ⟨r, m, i, s, hparse, hr⟩ :=
      perform_wantOne Lexicon.houseWords (by decide +kernel)
    have hrepeatable : r.operation.Repeatable := hr ▸ repeatable_add 1 i s
    obtain ⟨hlegible, hsaid, -⟩ := said_again Lexicon.sound_house.clear hparse hrepeatable
    obtain ⟨ts, hts, hback⟩ := hsaid (hlegible Lexicon.sound_house)
    obtain ⟨again, hagain, -, hsame, -⟩ := hback 30 attentive (attentive_succeed _)
    exact ⟨r, m, ts, hparse, hrepeatable, hts, again, _, hagain, hsame⟩
  · obtain ⟨r, m, i, s, hparse, hr⟩ := perform_wantOne squareWords (by decide +kernel)
    have hrepeatable : r.operation.Repeatable := hr ▸ repeatable_add 1 i s
    obtain ⟨-, -, hunsaid⟩ := said_again clear_squareWords hparse hrepeatable
    have hone : ¬ (Lexicon.build Taxonomy.house squareWords).Legible 1 := by
      intro h
      obtain ⟨text, htext⟩ := h.exists_findNumber
      have hnone : (Lexicon.findNumber ((1 : Nat) : Int)
        (Lexicon.build Taxonomy.house squareWords).entries).isOk = false := by decide +kernel
      rw [htext] at hnone
      cases hnone
    obtain ⟨cause, hcause⟩ := hunsaid fun h => hone (h 1 _ (by rw [hr]; exact mem_parts_self _))
    exact ⟨r, m, cause, hparse, hrepeatable, hcause⟩

end House

end Grammar

end DeliTalk
