import DeliTalk.Proofs.Clouds
import DeliTalk.Proofs.Fillings

/-!
# What no listener is prepared for

A text has a reading or none, and a listener is prepared for both. What escapes it is a word for a
number that looks like digits and cannot be read. A listener that looks words up meets it if the word
can be spelled, one that draws senses may meet it in any text.

* `Halts`, `Sentence.ends_understand_halts`: any sentence.
* `Lexicon.Obscure`: number words that cannot be read.
* `Grammar.ends_parse_escaped`: any text.
* `Grammar.exists_imagineSenses`: every entry is drawn by somebody.
* `Personality.Reached`, `reached_versed`: what machines heard and learned.
* `Grammar.exists_escape`, `Grammar.parses_iff`: when nothing escapes.
-/

namespace DeliTalk

open Act

/-! ## 1. Numbers that cannot be read -/

/-- Whether one of some words is for a number and cannot be read. -/
def Stumbles (ts : List Tagged) (cause : Numeral.Unread) : Prop :=
  ∃ w ∈ ts, w.is .number = true ∧ w.entry.map Entry.number? = some (.error cause)

theorem Stumbles.mono {ts us : List Tagged} {cause : Numeral.Unread} (h : Stumbles us cause)
    (hsub : us ⊆ ts) : Stumbles ts cause := by
  obtain ⟨w, hw, hnumber⟩ := h
  exact ⟨w, hsub hw, hnumber⟩

/-- Reading a clause stops at a number that cannot be read. -/
theorem Clause.stumbles_of_read {ts : List Tagged} {cause : Numeral.Unread}
    (h : read ts = .unreadable cause) : Stumbles ts cause := by
  have hbody : ∀ count us, readBody count us ≠ .unreadable cause := by
    intro count us
    unfold readBody
    split
    split
    split <;> simp
  unfold read at h
  split at h
  · cases h
  · rename_i w rest
    split at h
    · rename_i hw
      split at h
      · rename_i cause' hcause
        cases h
        exact ⟨w, List.mem_cons_self, hw, hcause⟩
      · exact absurd h (hbody _ _)
      · cases h
    · exact absurd h (hbody _ _)

/-- Reading on stops at a number that cannot be read. -/
theorem Outline.stumbles_of_readMore {cause : Numeral.Unread} : ∀ (more : List Clause)
    (ts : List Tagged), readMore ts = (more, .unreadable cause) → Stumbles ts cause
  | [], ts, h => by
    rcases readMore_cases ts with hm | ⟨w, us, cause', rfl, hr, hm⟩ | ⟨_, _, _, _, -, -, -, hm⟩ <;>
      rw [h] at hm <;> cases hm
    exact (Clause.stumbles_of_read hr).mono (List.subset_cons_self w us)
  | c :: more, ts, h => by
    rcases readMore_cases ts with hm | ⟨_, _, _, -, -, hm⟩ | ⟨w, us, d, left, rfl, -, hr, hm⟩ <;>
      rw [h] at hm <;> simp only [Prod.mk.injEq, List.cons.injEq, reduceCtorEq, false_and] at hm
    obtain ⟨⟨rfl, hmore⟩, hend⟩ := hm
    have hleft := stumbles_of_readMore more left (Prod.ext hmore.symm hend.symm)
    exact hleft.mono (List.subset_cons_of_subset w (Clause.nouns_of_read hr).2.2)

section Sentences

variable {R : Type} [Scalar R] {t : Taxonomy} (skills : Language R)

/-- Whether a fault only spoils one attempt, or is that of a number among some words that cannot be
read. -/
def Halts (ts : List Tagged) (e : Fault) : Prop :=
  Grammar.isPassing e = true ∨ ∃ cause, Stumbles ts cause ∧ e = .unreadableNumber cause

/-- A chain of clauses. -/
theorem Clause.ends_understandChain_halts {ts : List Tagged} {ending : Ending}
    (hending : ∀ cause, ending = .unreadable cause → Stumbles ts cause) :
    ∀ (c : Clause) (more : List Clause) (chance : Chance R),
      Ends (understandChain t skills ending c more) chance (fun _ _ => True) fun e _ => Halts ts e
  | c, [], chance => by
    unfold understandChain
    rw [ends_bind]
    refine (ends_understand skills c chance).mono (fun u c' _ => ?_) fun e c' he => Or.inl he.1
    cases ending with
    | rest rest => exact True.intro
    | unreadable cause => exact Or.inr ⟨cause, hending cause rfl, rfl⟩
  | c, d :: more, chance => by
    unfold understandChain
    rw [ends_bind]
    refine (ends_understand skills c chance).mono (fun u c' _ => ?_) fun e c' he => Or.inl he.1
    rw [ends_bind]
    refine (ends_understandChain_halts hending d more c').imp fun v c'' _ => ?_
    rw [ends_bind, ends_roll]
    split <;> exact True.intro

theorem Sentence.ends_understandAll_halts (ts : List Tagged) (chance : Chance R) :
    Ends (understandAll t skills ts) chance (fun _ _ => True) fun e _ => Halts ts e := by
  unfold understandAll
  split
  · exact True.intro
  · rename_i cause hread
    unfold Outline.read at hread
    split at hread
    · cases hread
    · cases hread
    · rename_i hclause
      cases hread
      exact Or.inr ⟨cause, Clause.stumbles_of_read hclause, rfl⟩
  · rename_i o hread
    have hending : ∀ cause, o.ending = .unreadable cause → Stumbles ts cause := by
      intro cause hending
      unfold Outline.read at hread
      split at hread
      · rename_i c left hclause
        cases hread
        have hleft := Outline.stumbles_of_readMore _ left (Prod.ext rfl hending)
        exact hleft.mono (Clause.nouns_of_read hclause).2.2
      · cases hread
      · cases hread
    rw [ends_bind]
    exact (Clause.ends_understandChain_halts skills hending o.first o.more chance).imp
      fun _ _ _ => True.intro

/-- **Any sentence** is understood or not, or the attempt is spoiled, or it stops at a number that
cannot be read. -/
theorem Sentence.ends_understand_halts (ts : List Tagged) (chance : Chance R) :
    Ends (understand t skills ts) chance (fun _ _ => True) fun e _ => Halts ts e := by
  cases ts with
  | nil => exact True.intro
  | cons w rest =>
    by_cases ha : Alone w rest
    · obtain ⟨rfl, x, hx⟩ := ha
      have hperform : (understand t skills [w]).perform chance =
          (.ok (some (x, .unused)), chance) := by simp [understand, hx]
      exact ends_of_perform hperform True.intro
    · rw [understand_of_not_alone ha]
      split
      · rw [ends_bind]
        refine (ends_understandAll_halts skills rest chance).mono (fun _ _ _ => True.intro)
          fun e c he => he.imp id ?_
        rintro ⟨cause, hstumbles, rfl⟩
        exact ⟨cause, hstumbles.mono (List.subset_cons_self w rest), rfl⟩
      · exact ends_understandAll_halts skills _ chance

end Sentences

/-! ## 2. Texts -/

/-- The words that are read in a text have syllables. -/
theorem Phrase.syllables_of_read {text : String} {phrase : List Word}
    (h : read text = .ok phrase) : ∀ w ∈ phrase, w.syllables ≠ [] :=
  (read_eq_ok_iff.mp h).2.1

/-- A number word that cannot be read. A machine that looks words up meets only those that can be
spelled; one that draws their senses may meet any. -/
def Lexicon.Obscure (lex : Lexicon) (probabilistic : Bool) (cause : Numeral.Unread) : Prop :=
  ∃ p ∈ lex.entries, (probabilistic = false → ∃ w, Word.read p.1 = .ok w) ∧
    p.2.usage = .number ∧ p.2.number? = .error cause

namespace Grammar

variable {R : Type} [Scalar R] {g : Grammar} {probabilistic : Bool} {phrase : List Word}
  {cause : Numeral.Unread}

/-- What is looked up comes from the lexicon. -/
theorem obscure_of_annotate (hspelled : ∀ w ∈ phrase, w.syllables ≠ [])
    (h : Stumbles (g.annotate phrase) cause) : g.lexicon.Obscure false cause := by
  obtain ⟨t, ht, hnumber, hcause⟩ := h
  obtain ⟨w, hw, rfl⟩ := List.mem_map.mp ht
  rw [Tagged.is_iff] at hnumber
  unfold tag at hnumber hcause
  simp only at hnumber hcause
  cases hlookup : g.lexicon.lookup? w.text with
  | none =>
    rw [hlookup] at hnumber
    simp only at hnumber
    split at hnumber <;> cases hnumber
  | some e =>
    rw [hlookup] at hnumber hcause
    exact ⟨_, Register.mem_keys_of_find? hlookup, fun _ => ⟨w, Word.read_text (hspelled w hw)⟩,
      Option.some.inj hnumber, Option.some.inj hcause⟩

/-- What is drawn comes from the lexicon. -/
theorem obscure_of_readWith {ts : List Tagged} {m : Mind ℝ}
    (hm : m.personality.Versed g.lexicon.uniqueEntries) (hts : m.ReadWith ts)
    (h : Stumbles ts cause) : g.lexicon.Obscure true cause := by
  obtain ⟨t, ht, hnumber, hcause⟩ := h
  obtain ⟨e, he, hknows⟩ := hts t ht
  obtain ⟨p, hp, rfl⟩ := g.lexicon.mem_uniqueEntries.mp (hm.mem hknows)
  rw [Tagged.is_iff, Tagged.usage?, he] at hnumber
  rw [he] at hcause
  exact ⟨p, hp, Bool.noConfusion, Option.some.inj hnumber, Option.some.inj hcause⟩

end Grammar

/-- A machine that can draw a sense for any word. -/
structure Mind.Draws (lex : Lexicon) (m : Mind ℝ) : Prop where
  versed : m.personality.Versed lex.uniqueEntries
  proper : m.chance.Proper

namespace Mind

variable {lex : Lexicon} {m m' : Mind ℝ}

theorem Draws.later (h : m.Draws lex) (hlater : m.Later m') : m'.Draws lex := by
  obtain ⟨c, hc, rfl⟩ := hlater
  exact ⟨h.versed, hc.proper h.proper⟩

/-- A sense is there for every word. -/
theorem Draws.ends_sampleSense (h : m.Draws lex) (hne : lex.uniqueEntries ≠ []) (word : String) :
    Ends (sampleSense word lex.uniqueEntries) m (fun _ m' => m'.Draws lex) never := by
  obtain ⟨hears, hcloud⟩ := m.personality.overhears_seeded word lex.uniqueEntries
  have hversed := h.versed.overhears hears
  obtain ⟨hentries, hpos⟩ := hversed word _ hcloud
  have hsenses : (m.personality.seeded word lex.uniqueEntries).1 ≠ [] := by
    intro hnil
    rw [hnil, List.map_nil] at hentries
    exact hne hentries.symm
  unfold sampleSense senses lucky
  rw [ends_bind, ends_always, ends_bind, ends_on]
  exact (yields_pickWeighted hsenses hpos m.chance h.proper).imp fun s c hs => ⟨hversed, hs.1⟩

end Mind

namespace Grammar

variable {g : Grammar} {probabilistic : Bool} {phrase : List Word} {m : Mind ℝ}

theorem ends_imagineSenses_draws (hne : g.lexicon.uniqueEntries ≠ []) : ∀ (ws : List Word)
    (m : Mind ℝ), m.Draws g.lexicon →
      Ends (imagineSenses g.lexicon.uniqueEntries ws) m (fun _ m' => m'.Draws g.lexicon) never
  | [], _, h => h
  | w :: rest, m, h => by
    unfold imagineSenses
    rw [ends_bind]
    refine (h.ends_sampleSense hne w.text).imp fun e m₁ h₁ => ?_
    rw [ends_bind]
    exact (ends_imagineSenses_draws hne rest m₁ h₁).imp fun ts m₂ h₂ => h₂

/-- Reading a sentence comes to something or nothing, or stops at a number that cannot be read. -/
theorem ends_tryTagged_stumbles {R : Type} [Scalar R] (g : Grammar) (ts : List Tagged) (m : Mind R) :
    Ends (do
      match ← (g.sentence ts).attempt with
      | .ok understood => return understood.map fun u => (ts, u)
      | .error e => if isPassing e then return none else Act.fault e) m
      (fun _ m' => m.Later m')
      fun e _ => ∃ cause, Stumbles ts cause ∧ e = .unreadableNumber cause := by
  have hsentence : Ends (g.sentence ts) m (fun _ _ => True) fun e _ => Halts ts e := by
    unfold sentence Mind.lucky
    rw [ends_bind, ends_get, ends_on]
    exact Sentence.ends_understand_halts _ ts m.chance
  rw [ends_bind, ends_attempt]
  refine ((g.ends_sentence ts m).and hsentence).mono (fun u m₁ h => h.1.2) fun e m₁ h => ?_
  simp only
  split
  · exact h.1.2
  · rename_i hstops
    exact h.2.resolve_left hstops

/-- A fault that escapes: a number word that cannot be read. -/
def Escaped (g : Grammar) (probabilistic : Bool) (e : Fault) : Prop :=
  ∃ cause, g.lexicon.Obscure probabilistic cause ∧ e = .unreadableNumber cause

/-- One attempt. -/
theorem ends_tryOnce_escaped (hne : g.lexicon.uniqueEntries ≠ [])
    (hspelled : ∀ w ∈ phrase, w.syllables ≠ []) (h : m.Draws g.lexicon) :
    Ends (g.tryOnce probabilistic phrase) m (fun _ m' => m'.Draws g.lexicon)
      fun e _ => g.Escaped probabilistic e := by
  unfold tryOnce
  simp only
  split
  · rename_i hdraws
    rw [ends_bind]
    refine ((ends_imagineSenses g.lexicon.uniqueEntries phrase m).and
      (ends_imagineSenses_draws hne phrase m h)).mono (fun ts m₁ h₁ => ?_) fun _ _ h₁ => h₁.2.elim
    obtain ⟨⟨-, -, hread⟩, hm₁⟩ := h₁
    refine (g.ends_tryTagged_stumbles ts m₁).mono (fun _ m₂ h₂ => hm₁.later h₂) fun e _ he => ?_
    obtain ⟨cause, hstumbles, rfl⟩ := he
    rw [hdraws]
    exact ⟨cause, obscure_of_readWith hm₁.versed hread hstumbles, rfl⟩
  · rename_i hlooks
    rw [ends_bind, ends_pure]
    refine (g.ends_tryTagged_stumbles (g.annotate phrase) m).mono (fun _ m₁ h₁ => h.later h₁)
      fun e _ he => ?_
    obtain ⟨cause, hstumbles, rfl⟩ := he
    rw [Bool.eq_false_iff.mpr hlooks]
    exact ⟨cause, obscure_of_annotate hspelled hstumbles, rfl⟩

/-- Any number of attempts. -/
theorem ends_tryAgain_escaped (hne : g.lexicon.uniqueEntries ≠ [])
    (hspelled : ∀ w ∈ phrase, w.syllables ≠ []) : ∀ (remaining attempt : Nat) (m : Mind ℝ),
    m.Draws g.lexicon → Ends (g.tryAgain probabilistic phrase attempt remaining) m
      (fun _ m' => m'.Draws g.lexicon) fun e _ => g.Escaped probabilistic e
  | 0, _, _, h => h
  | remaining + 1, attempt, m, h => by
    unfold tryAgain
    rw [ends_bind]
    refine (ends_tryOnce_escaped hne hspelled h).imp fun r m₁ h₁ => ?_
    cases r with
    | some p => exact h₁
    | none => exact ends_tryAgain_escaped hne hspelled remaining (attempt + 1) m₁ h₁

/-- **Any text** has a reading, or none, or a number among its words escapes. -/
theorem ends_parse_escaped (hne : g.lexicon.uniqueEntries ≠ []) (h : m.Draws g.lexicon)
    (text : String) : Ends (g.parse probabilistic text) m (fun _ _ => True)
      fun e _ => (∃ cause, e = .unparsed cause) ∨ g.Escaped probabilistic e := by
  unfold parse
  cases hphrase : Phrase.read text with
  | error e => exact Or.inl ⟨_, rfl⟩
  | ok phrase =>
    have hspelled := Phrase.syllables_of_read hphrase
    simp only
    rw [ends_bind]
    refine (ends_tryAgain_escaped hne hspelled _ 1 m h).mono (fun r m₁ _ => ?_) fun _ _ he =>
      Or.inr he
    cases r with
    | some reading => exact True.intro
    | none => exact Or.inl ⟨_, rfl⟩

end Grammar

/-! ## 3. Numbers that are met -/

/-- The search by halves finds the first total above a mark. -/
theorem placeAbove_eq {mark : ℝ} {totals : List ℝ} {k : Nat} : ∀ {low high : Nat}, low ≤ k →
    k ≤ high → (∀ i, low ≤ i → i < k → totals[i]?.any (fun v => decide (mark < v)) = false) →
    (∀ i, k ≤ i → i < high → totals[i]?.any (fun v => decide (mark < v)) = true) →
    placeAbove mark totals low high = k := by
  intro low high
  induction h : high - low using Nat.strong_induction_on generalizing low high with
  | _ n ih =>
    intro hlow hhigh hbelow habove
    unfold placeAbove
    split
    · simp only
      split
      · rename_i hmark
        -- the middle is not below the place
        have hmiddle : k ≤ (low + high) / 2 := by
          by_contra hlt
          rw [hbelow _ (by omega) (by omega)] at hmark
          cases hmark
        exact ih _ (by omega) rfl hlow hmiddle hbelow fun i hi hlt => habove i hi (by omega)
      · rename_i hmark
        have hmiddle : (low + high) / 2 < k := by
          by_contra hle
          exact hmark (habove _ (by omega) (by omega))
        exact ih _ (by omega) rfl (by omega) hhigh (fun i hi hlt => hbelow i (by omega) hlt) habove
    · omega

/-- The totals of equal weights count up. -/
theorem runningTotals_replicate (n : Nat) :
    runningTotals (List.replicate n (1 : ℝ)) = (List.range n).map fun i : Nat => (i : ℝ) + 1 := by
  have key : ∀ (n : Nat) (total : ℝ), runningTotals.go total (List.replicate n 1) =
      (List.range n).map fun i : Nat => total + ((i : ℝ) + 1) := by
    intro n
    induction n with
    | zero => exact fun _ => rfl
    | succ n ih =>
      intro total
      rw [List.replicate_succ, runningTotals.go, ih, List.range_succ_eq_map, List.map_cons,
        List.map_map, Nat.cast_zero, zero_add]
      congr 1
      refine List.map_congr_left fun i _ => ?_
      simp only [Function.comp_apply, Nat.succ_eq_add_one, Nat.cast_add, Nat.cast_one]
      ring
  have hstart : runningTotals (List.replicate n (1 : ℝ)) =
      runningTotals.go 0 (List.replicate n 1) := by
    cases n with
    | zero => rfl
    | succ n => rw [List.replicate_succ, runningTotals, runningTotals.go, zero_add]
  rw [hstart, key]
  simp only [zero_add]

/-- **Every entry is drawn** from an even cloud by somebody. -/
theorem exists_pickWeighted_even {entries : List Entry} {k : Nat} (hk : k < entries.length) :
    ∃ chance : Chance ℝ, chance.Proper ∧
      Ends (pickWeighted Meaning.weight (Personality.evenCloud entries)) chance
        (fun s c => s.entry = entries[k] ∧ c.Proper) never := by
  have hpos : (0 : ℝ) < entries.length := Nat.cast_pos.mpr (Nat.zero_lt_of_lt hk)
  have hproper : (Chance.scripted (fun _ => (k : ℝ) / entries.length) 0).Proper :=
    fun _ => ⟨by positivity, (div_lt_one hpos).mpr (Nat.cast_lt.mpr hk)⟩
  refine ⟨_, hproper, ?_⟩
  have hlength : (Personality.evenCloud entries : List (Meaning ℝ)).length = entries.length :=
    List.length_map _
  have htotals : runningTotals ((Personality.evenCloud entries).map Meaning.weight) =
      (List.range entries.length).map fun i : Nat => (i : ℝ) + 1 := by
    rw [← runningTotals_replicate, Personality.evenCloud, List.map_map]
    refine congrArg runningTotals (List.eq_replicate_iff.mpr ⟨List.length_map _, fun w hw => ?_⟩)
    obtain ⟨e, -, rfl⟩ := List.mem_map.mp hw
    show (1.0 : ℝ) = 1
    norm_num
  have hlast : ((List.range entries.length).map fun i : Nat => (i : ℝ) + 1).getLast? =
      some (entries.length : ℝ) := by
    rw [List.getLast?_eq_getElem?, List.length_map, List.length_range, List.getElem?_map,
      List.getElem?_range (by omega), Option.map_some, Nat.cast_sub (by omega)]
    simp
  have hmark : (k : ℝ) / entries.length * entries.length = k := div_mul_cancel₀ _ hpos.ne'
  have hplace : placeAbove (k : ℝ) ((List.range entries.length).map fun i : Nat => (i : ℝ) + 1) 0
      (entries.length - 1) = k := by
    refine placeAbove_eq (Nat.zero_le k) (by omega) (fun i _ hi => ?_) fun i hi hlt => ?_
    · rw [List.getElem?_map, List.getElem?_range (by omega), Option.map_some, Option.any_some,
        decide_eq_false_iff_not, not_lt]
      exact_mod_cast hi
    · rw [List.getElem?_map, List.getElem?_range (by omega), Option.map_some, Option.any_some,
        decide_eq_true_eq]
      exact_mod_cast Nat.lt_succ_of_le hi
  unfold pickWeighted
  simp only [htotals, hlast]
  have hzero : ¬ (entries.length : ℝ) ≤ 0.0 := by
    have : (0.0 : ℝ) = 0 := by norm_num
    linarith
  rw [if_neg hzero, if_neg (by simp)]
  unfold drawOne
  rw [ends_bind, ends_always]
  simp only [Chance.draw, hmark, hlength, hplace]
  rw [List.getElem?_eq_getElem (hlength.symm ▸ hk)]
  refine ⟨?_, hproper⟩
  show (Personality.evenCloud entries)[k].entry = entries[k]
  simp [Personality.evenCloud]

/-- **Every entry is drawn** for a word that is new to a machine, or was heard and never confirmed, by
somebody. -/
theorem Grammar.exists_imagineSenses {entries : List Entry} {e : Entry} (he : e ∈ entries) :
    ∃ chance : Chance ℝ, chance.Proper ∧ ∀ (p : Personality ℝ) (w : Word),
      (Register.find? w.text p.cloud = none ∨
        Register.find? w.text p.cloud = some (Personality.evenCloud entries)) →
      Ends (imagineSenses entries [w]) ⟨p, chance⟩
        (fun ts m => ts = [⟨w, some e.part, some e⟩] ∧ m.chance.Proper) never := by
  obtain ⟨k, hk, hentry⟩ := List.getElem_of_mem he
  obtain ⟨chance, hproper, hpick⟩ := exists_pickWeighted_even hk
  refine ⟨chance, hproper, fun p w heven => ?_⟩
  have hcloud : (p.seeded w.text entries).1 = Personality.evenCloud entries := by
    unfold Personality.seeded
    rcases heven with hw | hw <;> simp only [hw]
  unfold imagineSenses Mind.sampleSense Mind.senses Mind.lucky
  rw [ends_bind, ends_bind, ends_always, ends_bind, ends_on]
  simp only [hcloud]
  refine hpick.imp fun s c hs => ?_
  obtain ⟨hs, hc⟩ := hs
  rw [hentry] at hs
  exact ⟨by rw [hs], hc⟩

namespace Grammar

variable {g : Grammar} {probabilistic : Bool} {cause : Numeral.Unread}

/-- A number alone that cannot be read is no sentence. -/
theorem ends_sentence_number {R : Type} [Scalar R] {w : Tagged} (hw : w.is .number = true)
    (hcause : w.entry.map Entry.number? = some (.error cause)) (m : Mind R) :
    Ends (g.sentence [w]) m (fun _ _ => False) fun e _ => e = .unreadableNumber cause := by
  have husage : w.usage? = some .number := Tagged.is_iff.mp hw
  have hsingle : Sentence.single? w = none := by
    unfold Sentence.single?
    rw [husage]
  have hquestion : w.is .question = false := by
    rw [Tagged.is, husage]
    rfl
  have hread : Outline.read [w] = .unreadable cause := by
    have hclause : Clause.read [w] = .unreadable cause := by
      unfold Clause.read
      simp only [hw, if_true, hcause]
    unfold Outline.read
    rw [hclause]
  unfold sentence Mind.lucky
  rw [ends_bind, ends_get, ends_on]
  unfold Sentence.understand
  simp only [hsingle, hquestion, Bool.false_eq_true, if_false]
  unfold Sentence.understandAll
  rw [hread]
  exact rfl

/-- **A number that cannot be read escapes** when it is met alone. -/
theorem ends_parse_number (phrase : List Word) (hspelled : ∀ w ∈ phrase, w.syllables ≠ [])
    (hne : phrase ≠ []) (hbudget : 1 ≤ g.retryBudget) {m : Mind ℝ}
    (h : Ends (if probabilistic then imagineSenses g.lexicon.uniqueEntries phrase
      else pure (g.annotate phrase)) m (fun ts _ => ∃ w : Tagged, ts = [w] ∧ w.is .number = true ∧
        w.entry.map Entry.number? = some (.error cause)) never) :
    Ends (g.parse probabilistic (Phrase.text phrase)) m (fun _ _ => False)
      fun e _ => e = .unreadableNumber cause := by
  have hattempts : ∃ n, (if probabilistic then g.retryBudget else 1).toNat = n + 1 := by
    refine ⟨(if probabilistic then g.retryBudget else 1).toNat - 1, ?_⟩
    split <;> omega
  obtain ⟨n, hn⟩ := hattempts
  have honce : Ends (g.tryOnce probabilistic phrase) m (fun _ _ => False)
      fun e _ => e = .unreadableNumber cause := by
    unfold tryOnce
    cases probabilistic <;>
    · simp only [Bool.false_eq_true, if_false, if_true] at h ⊢
      rw [ends_bind]
      refine h.mono ?_ fun _ _ => False.elim
      rintro _ m₁ ⟨w, rfl, hw, hcause⟩
      rw [ends_bind, ends_attempt]
      refine (ends_sentence_number hw hcause m₁).mono (fun _ _ => False.elim) ?_
      rintro _ _ rfl
      exact rfl
  unfold parse
  rw [Phrase.read_text hne hspelled]
  simp only [hn]
  unfold tryAgain
  rw [ends_bind, ends_bind]
  exact honce.mono (fun _ _ => False.elim) fun _ _ he => he

end Grammar

/-! ## 4. Machines that heard and learned -/

namespace Personality

/-- Where a machine gets to from one that has heard nothing yet: it listens to texts, some of which it
looks up, it takes a yes to heart, and anything may happen to it that leaves its clouds alone. -/
inductive Reached (lex : Lexicon) : Personality ℝ → Prop where
  | fresh {p : Personality ℝ} (h : p.cloud = []) : Reached lex p
  | heard {g : Grammar} {probabilistic : Bool} {text : String} {m m' : Mind ℝ}
      {r : Except Fault (Reading ℝ)} (h : Reached lex m.personality) (hg : g.lexicon = lex)
      (hparse : (g.parse probabilistic text).perform m = (r, m')) : Reached lex m'.personality
  | confirmed {p : Personality ℝ} (h : Reached lex p) (reading : List LexedWord) :
      Reached lex (p.reinforce confirmationRate reading).1
  | otherwise {p q : Personality ℝ} (h : Reached lex p) (hcloud : q.cloud = p.cloud) :
      Reached lex q

/-- A sense with a greater weight is the same sense. -/
theorem strengthen_spec (entry : Entry) : ∀ ms : List (Meaning ℝ), (∀ s ∈ ms, 0 < s.weight) →
    (strengthen confirmationRate entry ms).1.map (·.entry) = ms.map (·.entry) ∧
      ∀ s ∈ (strengthen confirmationRate entry ms).1, 0 < s.weight
  | [], _ => ⟨rfl, nofun⟩
  | m :: rest, h => by
    obtain ⟨hentries, hpos⟩ := strengthen_spec entry rest fun s hs => h s (List.mem_cons_of_mem m hs)
    have hm := h m List.mem_cons_self
    have hmore : (0 : ℝ) < Scalar.least maxWeight (m.weight * (1.0 + confirmationRate)) := by
      unfold Scalar.least maxWeight confirmationRate
      split
      · exact mul_pos hm (by norm_num)
      · norm_num
    unfold strengthen
    simp only
    split
    · exact ⟨congrArg (m.entry :: ·) hentries, List.forall_mem_cons.mpr ⟨hmore, hpos⟩⟩
    · exact ⟨congrArg (m.entry :: ·) hentries, List.forall_mem_cons.mpr ⟨hm, hpos⟩⟩

variable {entries : List Entry}

/-- One word. -/
theorem Versed.reinforceWord {p : Personality ℝ} (h : p.Versed entries) (w : LexedWord) :
    (Personality.reinforceWord confirmationRate p w).1.Versed entries := by
  unfold Personality.reinforceWord
  split
  · rename_i entry cloud _ hcloud
    obtain ⟨hentries, hpos⟩ := h _ _ hcloud
    obtain ⟨hsame, hmore⟩ := strengthen_spec entry cloud hpos
    intro word senses hsenses
    by_cases hw : word = w.word
    · rw [hw, Register.find?_put_self, Option.some.injEq] at hsenses
      rw [← hsenses]
      exact ⟨hsame.trans hentries, hmore⟩
    · rw [Register.find?_put_of_ne _ hw] at hsenses
      exact h word senses hsenses
  · exact h

/-- A yes leaves the senses there are. -/
theorem Versed.reinforce : ∀ (reading : List LexedWord) {p : Personality ℝ}, p.Versed entries →
    (p.reinforce confirmationRate reading).1.Versed entries
  | [], _, h => h
  | w :: rest, _, h => by
    rw [reinforce_cons]
    exact Versed.reinforce rest (h.reinforceWord w)

/-- **Whatever a machine has heard and learned**, it can draw a sense for any word. -/
theorem reached_versed {lex : Lexicon} {p : Personality ℝ} (h : Reached lex p) :
    p.Versed lex.uniqueEntries := by
  induction h with
  | fresh h => exact versed_fresh h
  | @heard g probabilistic text m m' r _ hg hparse ih =>
    have hends := @Grammar.ends_parse_overhears ℝ _ g probabilistic text m
    unfold Ends at hends
    rw [hparse, hg] at hends
    cases r with
    | error e => exact ih.overhears hends
    | ok reading => exact ih.overhears hends.1
  | confirmed _ reading ih => exact .reinforce reading ih
  | otherwise _ hcloud ih =>
    intro word cloud h
    rw [hcloud] at h
    exact ih word cloud h

end Personality

namespace Lexicon

/-- A list into which words were written is not empty. -/
theorem insertAll_ne_nil : ∀ {ps es : List (String × Entry)}, ps ≠ [] ∨ es ≠ [] →
    insertAll ps es ≠ []
  | [], _, h => h.resolve_left (absurd rfl)
  | p :: ps, es, _ => by
    have hwritten : insertWord p.1 p.2 es ≠ [] := by
      unfold insertWord
      split
      · exact List.cons_ne_nil _ _
      · split
        · exact List.cons_ne_nil _ _
        · split <;> exact List.cons_ne_nil _ _
    exact @insertAll_ne_nil ps _ (Or.inr hwritten)

/-- There is a word in every lexicon: that of some leaf. -/
theorem uniqueEntries_ne_nil (t : Taxonomy) (words : List (String × Entry)) :
    (build t words).uniqueEntries ≠ [] := by
  obtain ⟨p, hp, hleaf⟩ := Taxonomy.exists_leaf t.root t.root.morpheme
  have hnouns : nouns t ≠ [] := List.ne_nil_of_mem (mem_nouns.mpr ⟨p, hp, hleaf, rfl⟩)
  have hentries : (build t words).entries ≠ [] := insertAll_ne_nil (Or.inl hnouns)
  obtain ⟨q, hq⟩ := List.exists_mem_of_ne_nil _ hentries
  exact List.ne_nil_of_mem ((build t words).mem_uniqueEntries.mpr ⟨q, hq, rfl⟩)

end Lexicon

namespace Grammar

variable {t : Taxonomy} {words : List (String × Entry)} {g : Grammar} {probabilistic : Bool}
  {cause : Numeral.Unread}

/-- **Every number that cannot be read is met** by some machine in some text. -/
theorem exists_escape (hg : g.lexicon = Lexicon.build t words) (hbudget : 1 ≤ g.retryBudget)
    (h : g.lexicon.Obscure probabilistic cause) : ∃ (text : String) (m : Mind ℝ),
      m.personality.Reached g.lexicon ∧ m.chance.Proper ∧
      Ends (g.parse probabilistic text) m (fun _ _ => False)
        fun e _ => e = .unreadableNumber cause := by
  obtain ⟨p, hp, hspelled, hu, hcause⟩ := h
  have hfresh : (Personality.standard : Personality ℝ).Reached g.lexicon := .fresh rfl
  cases probabilistic with
  | false =>
    obtain ⟨w, hw⟩ := hspelled rfl
    obtain ⟨htext, hne⟩ := Word.text_of_read hw
    have hlookup : g.lexicon.lookup? w.text = some p.2 := by
      rw [hg] at hp ⊢
      rw [htext]
      exact Lexicon.lookup?_of_mem hp
    have htag : g.tag w = ⟨w, some p.2.part, some p.2⟩ := by
      unfold tag
      simp only [hlookup]
    refine ⟨_, ⟨.standard, .scripted (fun _ => 0) 0⟩, hfresh, fun _ => ⟨le_refl 0, zero_lt_one⟩,
      ends_parse_number [w] (by simpa using hne) (by simp) hbudget ?_⟩
    refine ⟨_, rfl, ?_, ?_⟩
    · rw [htag, Tagged.is_iff, Tagged.usage?, Option.map_some, hu]
    · rw [htag, Option.map_some, hcause]
  | true =>
    have hmem := g.lexicon.mem_uniqueEntries.mpr ⟨p, hp, rfl⟩
    obtain ⟨chance, hproper, himagine⟩ := exists_imagineSenses hmem
    refine ⟨_, ⟨.standard, chance⟩, hfresh, hproper,
      ends_parse_number [⟨[.consonantFirst .t .a]⟩] (by simp) (by simp) hbudget ?_⟩
    rw [if_pos rfl]
    refine (himagine _ _ (Or.inl rfl)).imp fun ts m hts => ⟨_, hts.1, ?_, ?_⟩
    · rw [Tagged.is_iff, Tagged.usage?, Option.map_some, hu]
    · rw [Option.map_some, hcause]

/-- Whether a text has a reading or none, and nothing escapes. -/
def Parses (g : Grammar) (probabilistic : Bool) (text : String) (m : Mind ℝ) : Prop :=
  Ends (g.parse probabilistic text) m (fun _ _ => True) fun e _ => ∃ cause, e = .unparsed cause

/-- **When nothing escapes a listener**: if every number it can meet can be read. -/
theorem parses_iff (hg : g.lexicon = Lexicon.build t words) (hbudget : 1 ≤ g.retryBudget) :
    (∀ (text : String) (m : Mind ℝ), m.personality.Reached g.lexicon → m.chance.Proper →
      g.Parses probabilistic text m) ↔ ∀ cause, ¬ g.lexicon.Obscure probabilistic cause := by
  constructor
  · intro hall cause hobscure
    obtain ⟨text, m, hreached, hproper, hescape⟩ := exists_escape hg hbudget hobscure
    have hboth := (hall text m hreached hproper).and hescape
    unfold Ends at hboth
    split at hboth
    · exact hboth.2
    · obtain ⟨⟨other, rfl⟩, he⟩ := hboth
      cases he
  · intro hnone text m hreached hproper
    have hne : g.lexicon.uniqueEntries ≠ [] := hg ▸ Lexicon.uniqueEntries_ne_nil t words
    refine (ends_parse_escaped hne ⟨Personality.reached_versed hreached, hproper⟩ text).mono
      (fun _ _ => id) fun e _ he => he.resolve_right ?_
    rintro ⟨cause, hobscure, -⟩
    exact hnone cause hobscure

end Grammar

end DeliTalk
