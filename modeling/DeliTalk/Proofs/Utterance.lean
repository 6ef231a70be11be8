import DeliTalk.Proofs.Exclusion
import DeliTalk.Proofs.Grasp
import DeliTalk.Proofs.Heeding
import DeliTalk.Proofs.Terms
import DeliTalk.Proofs.Turns

/-!
# What a customer has words for

A language with a word for every usage has words for everything a customer asks for, but perhaps for
how many. As many at once as there are words for means: up to the largest number there is a word for.
The numbers below it may be missing, and in a language without numbers even one is. What cannot be
said is taken back for an affirmation.

* `Lexicon.Complete`: languages with a word for every usage.
* `Operation.Over`, `counts`, `told_encode`: what has words, but perhaps for how many.
* `Order.ends_next_within`: what a customer asks for is on the menu, and how many of it.
* `Order.exists_next_pile`: somebody who asks for so many.
* `Order.next_said`: when customers can say whatever they pick.
-/

namespace DeliTalk

open Act

/-! ## 1. Languages with a word for every usage -/

/-- Whether a menu has a node of some name. -/
def Taxonomy.Has (t : Taxonomy) (name : String) : Prop := ∃ p ∈ t.walk, p.1.name = name

namespace Lexicon

/-- Menus and word lists in which nodes are told apart, words are spelled from syllables, and every
usage has a word. -/
structure Complete (t : Taxonomy) (words : List (String × Entry)) : Prop where
  tree : t.Spelled
  spelled : ∀ p ∈ words, ∃ w, Word.read p.1 = .ok w
  complete : ∀ u : Usage, ∃ p, (build t words).entryForUsage u = .ok p

/-- One more entry can be read, and its number is no larger than the largest one, which is its own or
that of the rest. -/
theorem greatestNumber_cons {p : String × Entry} {rest : List (String × Entry)} {largest : Nat}
    (h : greatestNumber (p :: rest) = .ok largest) :
    p.2.Reads ∧ ∃ most, greatestNumber rest = .ok most ∧ most ≤ largest ∧
      (∀ n : Nat, p.2.IsNumber n → n ≤ largest) ∧ (largest = most ∨ p.2.IsNumber largest) := by
  obtain ⟨text, e⟩ := p
  rw [greatestNumber] at h
  split at h
  · rename_i hu
    cases hvalue : e.number? with
    | error cause =>
      rw [numberOf, hvalue] at h
      cases h
    | ok k =>
      cases hrest : greatestNumber rest with
      | error cause =>
        rw [numberOf, hvalue, hrest] at h
        cases h
      | ok most =>
        rw [numberOf, hvalue, hrest] at h
        cases h
        refine ⟨fun _ => ⟨k, hvalue⟩, most, rfl, le_max_right _ _, ?_, ?_⟩
        · rintro n ⟨-, m, hm, hmn⟩
          rw [hvalue, Except.ok.injEq] at hm
          subst hm
          exact le_max_of_le_left (Int.ofNat_le.mp hmn.ge)
        · rcases le_total (k.getD 0) most with hk | hk
          · exact Or.inl (max_eq_right hk)
          · rw [max_eq_left hk]
            cases k with
            | none => exact Or.inl (Nat.le_zero.mp hk).symm
            | some m => exact Or.inr ⟨hu, m, hvalue, rfl⟩
  · rename_i hu
    exact ⟨fun hnumber => absurd hnumber hu, largest, h, le_refl largest,
      fun n hn => absurd hn.1 hu, Or.inl rfl⟩

/-- **The largest number** of a word list: all numbers among the words can be read, none of them is
larger, and it is one of them or zero. -/
theorem greatestNumber_spec : ∀ {es : List (String × Entry)} {largest : Nat},
    greatestNumber es = .ok largest → (∀ p ∈ es, p.2.Reads) ∧
      (∀ p ∈ es, ∀ n : Nat, p.2.IsNumber n → n ≤ largest) ∧
      (largest = 0 ∨ ∃ p ∈ es, p.2.IsNumber largest)
  | [], _, h => by
    cases h
    exact ⟨nofun, nofun, Or.inl rfl⟩
  | p :: rest, largest, h => by
    obtain ⟨hread, most, hrest, hle, hfirst, hlargest⟩ := greatestNumber_cons h
    obtain ⟨hreads, hmost, hattained⟩ := greatestNumber_spec hrest
    refine ⟨List.forall_mem_cons.mpr ⟨hread, hreads⟩, List.forall_mem_cons.mpr
      ⟨hfirst, fun q hq n hn => (hmost q hq n hn).trans hle⟩, ?_⟩
    rcases hlargest with rfl | hnumber
    · refine hattained.imp id ?_
      rintro ⟨q, hq, hn⟩
      exact ⟨q, List.mem_cons_of_mem p hq, hn⟩
    · exact Or.inr ⟨p, List.mem_cons_self, hnumber⟩

/-- A word that can be read is annotated. -/
theorem annotated_of_read (lex : Lexicon) {text : String} {w : Word} (hw : Word.read text = .ok w) :
    lex.annotated text = .ok ⟨w, (lex.lookup? text).map (·.part), lex.lookup? text⟩ := by
  unfold annotated
  rw [hw]
  rfl

namespace Complete

variable {t : Taxonomy} {words : List (String × Entry)} (h : Complete t words)

include h

/-- There is a word for every usage. -/
theorem exists_usage {u : Usage} (hu : u ≠ .ingredient) :
    ∃ w, (build t words).wordForUsage u = .ok w := by
  obtain ⟨p, hp⟩ := h.complete u
  obtain ⟨hmem, hpu⟩ := mem_of_entryForUsage hp
  obtain ⟨w, hw⟩ := h.spelled p (mem_words_of_mem hmem (hpu ▸ hu))
  rw [wordForUsage, hp]
  exact ⟨_, annotated_of_read (build t words) hw⟩

/-- There is a word for every node. -/
theorem exists_ingredient {i : Ingredient} (hi : t.Has i.name) :
    ∃ w, (build t words).wordForIngredient i = .ok w := by
  obtain ⟨p, hp, hname⟩ := hi
  obtain ⟨w, hread, -⟩ := h.tree.exists_word hp
  have hword : t.wordFor? i = some p.2 := by
    rw [Taxonomy.wordFor?_eq, ← hname, h.tree.find?_name hp, Option.map_some]
  refine ⟨⟨w, some .noun, some (Entry.ofIngredient i.name)⟩, ?_⟩
  unfold wordForIngredient
  rw [taxonomy_build, hword]
  simp only [hread]
  rfl

/-- Where numbers can be read, a number has a word if it is among them, and otherwise none. -/
theorem wordForNumber_cases (hreads : ∀ p ∈ (build t words).entries, p.2.Reads) (n : Nat) :
    ((build t words).Counts n ∧ ∃ w, (build t words).wordForNumber n = .ok w) ∨
      ¬ (build t words).Counts n ∧
        (build t words).wordForNumber n = .error (.missing (.numberWord n)) := by
  unfold wordForNumber
  rcases findNumber_cases n (build t words).entries with
    ⟨p, hp, hnumber, hfound⟩ | ⟨hall, hmissing⟩ | ⟨p, hp, hunread, -⟩
  · obtain ⟨w, hw⟩ := h.spelled _ (mem_words_of_mem hp (by rw [hnumber.1]; simp))
    rw [hfound]
    exact Or.inl ⟨⟨p, hp, hnumber⟩, _, annotated_of_read _ hw⟩
  · rw [hmissing]
    exact Or.inr ⟨fun ⟨p, hp, hn⟩ => (hall p hp).2 hn, rfl⟩
  · exact absurd (hreads p hp) hunread

end Complete

end Lexicon

/-! ## 2. What has words -/

namespace Operation

/-- How many of something an operation asks for, from outside in. -/
def counts : Operation → List Nat
  | repeated n x => n :: counts x
  | compound x y => counts x ++ counts y
  | persist x => counts x
  | _ => []

/-- Whether everything an operation names is on a menu. -/
def Over (t : Taxonomy) : Operation → Prop
  | add i r => t.Has i.name ∧ ∀ a ∈ r.anchor, t.Has a.name
  | remove i => t.Has i.name
  | removeAll i => t.Has i.name
  | ensure i => t.Has i.name
  | checkFor i => t.Has i.name
  | repeated _ x => Over t x
  | compound x y => Over t x ∧ Over t y
  | persist x => Over t x
  | affirm => True
  | negate => True
  | finish => True

/-- Whether there are words for an operation, and a machine that is to say it does. -/
def Said (lex : Lexicon) (x : Operation) : Prop :=
  ∃ ts, ts ≠ [] ∧ x.encode lex = .ok ts ∧ Agent.speak lex (some x) = .ok ts

/-- Whether a number keeps an operation from being said. -/
def Unsaid (lex : Lexicon) (x : Operation) (n : Nat) : Prop :=
  ¬ lex.Counts n ∧ x.encode lex = .error (.missing (.numberWord n)) ∧
    Agent.speak lex (some x) = .ok []

end Operation

/-- What is reached if all of some numbers have words; otherwise one of them has none. -/
def Told (lex : Lexicon) (ns : List Nat) {α : Type} (r : Except Fault α) (post : α → Prop) : Prop :=
  (∃ a, r = .ok a ∧ post a ∧ ∀ n ∈ ns, lex.Counts n) ∨
    ∃ n ∈ ns, ¬ lex.Counts n ∧ r = .error (.missing (.numberWord n))

namespace Operation

/-- The ingredients of what is over a menu are on it. -/
theorem Over.has_of_mem_terms {t : Taxonomy} {x : Operation} {i : Ingredient} (hx : x.Over t)
    (hi : .ingredient i ∈ x.terms) : t.Has i.name := by
  have hwanted : ∀ {j : Ingredient} {r : Relative}, t.Has j.name → (∀ a ∈ r.anchor, t.Has a.name) →
      Term.ingredient i ∈ wanted j r → t.Has i.name := by
    intro j r hj hr hi
    rcases mem_wanted hi with (hi | ⟨a, ha, hi⟩) | hi | hi | hi
    · cases hi
      exact hj
    · cases hi
      exact hr _ ha
    all_goals cases hi
  have htop : ∀ a ∈ Relative.top.anchor, t.Has a.name := fun a ha => by cases ha
  induction x with
  | add j r => exact hwanted hx.1 hx.2 hi
  | remove j => exact hwanted hx htop ((List.mem_cons.mp hi).resolve_left nofun)
  | removeAll j =>
    have hi := (List.mem_cons.mp hi).resolve_left nofun
    exact hwanted hx htop ((List.mem_cons.mp hi).resolve_left nofun)
  | repeated n x ih => exact ih hx ((List.mem_cons.mp hi).resolve_left nofun)
  | compound x y ihx ihy =>
    refine (List.mem_append.mp hi).elim (ihx hx.1) fun hi => ?_
    exact ihy hx.2 ((List.mem_cons.mp hi).resolve_left nofun)
  | persist x ih => exact ih hx ((List.mem_cons.mp hi).resolve_left nofun)
  | ensure j =>
    obtain rfl : i = j := by simpa [terms] using hi
    exact hx
  | checkFor j =>
    obtain rfl : i = j := by simpa [terms] using hi
    exact hx
  | affirm => simp [terms] at hi
  | negate => simp [terms] at hi
  | finish => simp [terms] at hi

/-- The numbers an operation is said with are its counts. -/
theorem number_mem_terms_iff {n : Nat} {x : Operation} : .number n ∈ x.terms ↔ n ∈ x.counts := by
  have hwanted : ∀ (i : Ingredient) (r : Relative), Term.number n ∉ wanted i r := by
    intro i r hn
    rcases mem_wanted hn with (hn | ⟨a, -, hn⟩) | hn | hn | hn <;> cases hn
  induction x with
  | repeated m x ih => simp [terms, counts, ih]
  | compound x y ihx ihy => simp [terms, counts, ihx, ihy]
  | persist x ih => simp [terms, counts, ih]
  | _ => simp [terms, counts, hwanted]

variable {t : Taxonomy} {words : List (String × Entry)} (h : Lexicon.Complete t words)

include h

/-- **What is on the menu has words**, as long as each of its counts has one. -/
theorem told_encode (hreads : ∀ p ∈ (Lexicon.build t words).entries, p.2.Reads) {x : Operation}
    (hx : x.Over t) :
    Told (Lexicon.build t words) x.counts (x.encode (Lexicon.build t words)) (· ≠ []) := by
  have hnumber := h.wordForNumber_cases hreads
  rcases encode_cases (Lexicon.build t words) x with ⟨ts, hts, hall⟩ | ⟨k, hk, e, he, hencode, -⟩
  · refine Or.inl ⟨ts, hts, ne_nil_of_encode hts, fun n hn => ?_⟩
    obtain ⟨w, hw⟩ := exists_word_of_mem hall (number_mem_terms_iff.mpr hn)
    rcases hnumber n with ⟨hcounts, -⟩ | ⟨-, hmissing⟩
    · exact hcounts
    · cases hw.symm.trans hmissing
  · -- only numbers may have no word
    cases k with
    | ingredient i =>
      obtain ⟨w, hw⟩ := h.exists_ingredient (hx.has_of_mem_terms hk)
      cases he.symm.trans hw
    | usage u =>
      obtain ⟨w, hw⟩ := h.exists_usage (usage_of_mem_terms hk).2
      cases he.symm.trans hw
    | number n =>
      rcases hnumber n with ⟨-, w, hw⟩ | ⟨hn, hmissing⟩
      · cases he.symm.trans hw
      · exact Or.inr ⟨n, number_mem_terms_iff.mp hk, hn,
          hencode.trans (congrArg _ (Except.error.inj (he.symm.trans hmissing)))⟩

/-- **What is on the menu is said**, or one of its counts has no word. -/
theorem said_or_unsaid (hreads : ∀ p ∈ (Lexicon.build t words).entries, p.2.Reads) {x : Operation}
    (hx : x.Over t) :
    (x.Said (Lexicon.build t words) ∧ ∀ n ∈ x.counts, (Lexicon.build t words).Counts n) ∨
      ∃ n ∈ x.counts, x.Unsaid (Lexicon.build t words) n := by
  rcases told_encode h hreads hx with ⟨ts, hts, hne, hcounts⟩ | ⟨n, hn, hmissing, herror⟩
  · exact Or.inl ⟨⟨ts, hne, hts, by rw [Agent.speak, hts]⟩, hcounts⟩
  · exact Or.inr ⟨n, hn, hmissing, herror, by rw [Agent.speak, herror]⟩

end Operation

/-! ## 3. What a customer asks for -/

/-- Whether everything on a sandwich is on a menu. -/
def Sandwich.From (t : Taxonomy) (s : Sandwich) : Prop := ∀ name ∈ s.names, t.Has name

/-- Whether everything somebody is fond of is on a menu. -/
def Personality.FondOf {R : Type} (t : Taxonomy) (p : Personality R) : Prop :=
  ∀ f ∈ p.favorites, t.Has f.ingredient.name

namespace Order

variable {t : Taxonomy}

/-- Whether a number is that of several wishes in a row, or of as many of them as may be asked for
at once. -/
def CutTo (most : Int) (n : Nat) : Prop := ∃ run : Nat, 1 < run ∧ (n : Int) = min (run : Int) most

/-- What is asked for, if anything, has no counts, or is so many on top as may be asked for at
once. -/
def Portions (most : Int) (a : Option Operation) : Prop :=
  ∀ x ∈ a, x.counts = [] ∨ ∃ n i, x = .repeated n (.add i .top) ∧ CutTo most n

theorem portions_none {most : Int} : Portions most none := nofun

theorem portions_some {most : Int} {x : Operation} (h : x.counts = []) : Portions most (some x) := by
  intro y hy
  cases hy
  exact Or.inl h

/-- What a craving leads to is on the menu. -/
theorem Craves.from {R : Type} {favorites : List (Preference R)} {d d' : Sandwich}
    (h : Craves favorites d d') (hd : d.From t)
    (hfavorites : ∀ f ∈ favorites, t.Has f.ingredient.name) : d'.From t := by
  intro name hname
  by_contra hno
  have hfond : ∀ f ∈ favorites, f.ingredient.name ≠ name := fun f hf heq =>
    hno (heq ▸ hfavorites f hf)
  exact h.not_mem_names hfond (fun hmem => hno (hd name hmem)) hname

/-- **What is apt is on the menu** if what is desired and what came are. -/
theorem Apt.named {R : Type} {allergies : List (Preference R)} {o : Order} {result : Sandwich}
    {x : Operation} (h : Apt allergies o result x) (hd : o.desired.From t)
    (hresult : result.From t) : x.Over t := by
  have hthere : ∀ {i : Ingredient}, i ∈ result.ingredients → t.Has i.name := fun hi =>
    hresult _ (List.mem_map_of_mem hi)
  have hwanted : ∀ {name : String} {n : Nat}, n < o.desired.count name → t.Has name := fun hlt =>
    hd _ (List.count_pos_iff.mp (Nat.zero_lt_of_lt hlt))
  have hanchor : ∀ {i : Ingredient}, result.contains i = true → t.Has i.name := fun hi => by
    obtain ⟨j, hj, hsame⟩ := List.any_eq_true.mp hi
    rw [Ingredient.same, beq_iff_eq] at hsame
    rw [← hsame]
    exact hthere hj
  cases h with
  | question pending lacks => exact hwanted lacks
  | removal there => exact hthere there
  | ban there => exact hthere there
  | several pos lacks =>
    exact ⟨hwanted (n := 0) (by omega), fun a ha => by cases ha⟩
  | addition lacks place =>
    refine ⟨hwanted (n := 0) (by omega), fun a ha => ?_⟩
    cases place with
    | top => cases ha
    | before hcontains =>
      cases ha
      exact hanchor hcontains
    | after hcontains =>
      cases ha
      exact hanchor hcontains

section Cascade

variable {R : Type} {result : Sandwich} {o o' : Order} {x : Operation}

/-- **Several at once** are asked for only if several wishes in a row are the same. -/
theorem Picked.portions {allergies : List (Preference R)} (h : Picked allergies o result x o') :
    Portions o.maxCount (some x) := by
  cases h with
  | removal h => cases h <;> exact portions_some rfl
  | earlier h => cases h <;> exact portions_some rfl
  | safety h =>
    cases h
    exact portions_some rfl
  | onward h =>
    cases h with
    | question wanted wish unsettled => exact portions_some rfl
    | @several k n w wanted wish run pos count =>
      rintro _ ⟨⟩
      exact Or.inr ⟨n, w.ingredient, rfl, _, run, count⟩
    | one wanted wish => exact portions_some rfl

variable [Scalar R]

/-- **The cascade** asks for as many at once as an order allows. -/
theorem ends_pick_portions (result : Sandwich) (tb : Table R) :
    Ends (pick result) tb (fun a _ => Portions tb.order.maxCount a) fun _ _ => True :=
  (ends_pick_picked result tb).imp fun _ _ h x hx => (h x hx).2.portions x rfl

end Cascade

end Order

/-! ## 4. A whole turn -/

section Turn

variable {R : Type} [Scalar R] {t : Taxonomy} {tb : Table R} {result : Sandwich}

/-- A customer at its table with a fair source of chance, whose wishes and favorites are on a
menu. -/
structure Table.OnMenu (t : Taxonomy) (tb : Table R) : Prop where
  desired : tb.order.desired.From t
  fond : tb.mind.personality.FondOf t
  fair : tb.mind.chance.Fair

namespace Order

/-- What comes of a turn: the wishes are on the menu, and so is what is said, of as much as an order
allows. -/
structure Within (t : Taxonomy) (most : Int) (a : Option Operation) (o : Order) : Prop where
  desired : o.desired.From t
  count : o.maxCount = most
  named : ∀ x ∈ a, x.Over t
  portions : Portions most a

omit [Scalar R] in
theorem Within.archive {most : Int} {x : Operation} {o : Order} (h : Within t most (some x) o)
    (result : Sandwich) : Within t most (some x) (o.archive x result) :=
  ⟨h.desired, h.count, h.named, h.portions⟩

/-- The cascade. -/
theorem ends_pick_within (h : tb.OnMenu t) (hresult : result.From t) :
    Ends (pick result) tb (fun a tb' => Within t tb.order.maxCount a tb'.order)
      fun _ _ => True := by
  refine ((((ends_pick_chosen result h.fair).and (ends_pick_apt result tb)).and
    (ends_pick_portions result tb)).and (leaves_pick result tb)).mono (fun a tb' h' => ?_)
    fun _ _ _ => True.intro
  obtain ⟨⟨⟨hchosen, hapt⟩, hportions⟩, desired, pending, hrewished⟩ := h'
  have hdesired := hchosen.craves.from h.desired h.fond
  exact ⟨hdesired, by rw [hrewished], fun x hx => (hapt x hx).named hdesired hresult, hportions⟩

/-- Learning changes neither the wishes of a customer nor how many of them it may ask for at once. -/
theorem leaves_learn_onMenu (h : tb.OnMenu t) (last : Operation) (result : Sandwich) :
    Leaves (learn last result) tb fun tb' =>
      tb'.OnMenu t ∧ tb'.order.maxCount = tb.order.maxCount := by
  have hcount : Leaves (learn last result) tb fun tb' =>
      tb'.order.maxCount = tb.order.maxCount := by
    unfold learn
    refine ends_bind.mpr (ends_get.mpr ?_)
    split
    · exact rfl
    · split <;> exact rfl
  refine ((leaves_learn_resumes last result h.fair).and hcount).mono (fun _ tb' h' => ?_)
    fun _ tb' h' => ?_ <;>
  · obtain ⟨⟨hdesired, -, hfavorites, hfair⟩, hcount⟩ := h'
    refine ⟨⟨?_, ?_, hfair⟩, hcount⟩
    · rw [hdesired]
      exact h.desired
    · rw [Personality.FondOf, hfavorites]
      exact h.fond

/-- The same is true of fading. -/
theorem leaves_fade_onMenu (h : tb.OnMenu t) (used : List Skill) :
    Leaves (Table.minded (Mind.fade used)) tb fun tb' =>
      tb'.OnMenu t ∧ tb'.order = tb.order := by
  have horder : Leaves (Table.minded (Mind.fade used)) tb fun tb' => tb'.order = tb.order :=
    leaves_on _ fun _ => rfl
  refine ((leaves_fade_resumes used h.fair).and horder).mono (fun _ tb' h' => ?_)
    fun _ tb' h' => ?_ <;>
  · obtain ⟨⟨-, -, hfavorites, hfair⟩, horder⟩ := h'
    refine ⟨⟨?_, ?_, hfair⟩, horder⟩
    · rw [horder]
      exact h.desired
    · rw [Personality.FondOf, hfavorites]
      exact h.fond

/-- Silence and thanks. -/
theorem within_quiet (h : tb.OnMenu t) {a : Option Operation}
    (ha : a = none ∨ a = some .affirm) : Within t tb.order.maxCount a tb.order := by
  rcases ha with rfl | rfl
  · exact ⟨h.desired, rfl, nofun, portions_none⟩
  · refine ⟨h.desired, rfl, fun x hx => ?_, portions_some rfl⟩
    cases hx
    exact True.intro

theorem ends_proceed_within (h : tb.OnMenu t) (hresult : result.From t) (used : List Skill)
    (polite : Bool) :
    Ends (proceed result used polite) tb (fun a tb' => Within t tb.order.maxCount a tb'.order)
      fun _ _ => True := by
  unfold proceed
  refine ends_bind.mpr ((leaves_fade_onMenu h used).mono (fun _ t₁ h₁ => ?_)
    fun _ _ _ => True.intro)
  obtain ⟨h₁, horder⟩ := h₁
  rw [← horder]
  refine ends_bind.mpr (ends_get.mpr ?_)
  split
  · exact within_quiet h₁ (Or.inl rfl)
  · split
    · exact (within_quiet h₁ (Or.inr rfl)).archive result
    · refine ends_bind.mpr ((ends_pick_within h₁ hresult).imp fun a t₂ h₂ => ?_)
      cases a with
      | none => exact h₂
      | some x => exact h₂.archive result

/-- **A turn** of a customer whose wishes are on the menu: so is what it asks for, of as much as its
order allows, and its wishes stay there. -/
theorem ends_next_within (h : tb.OnMenu t) (hresult : result.From t) :
    Ends (next result) tb (fun a tb' => Within t tb.order.maxCount a tb'.order)
      fun _ _ => True := by
  unfold next
  refine ends_bind.mpr (ends_get.mpr ?_)
  simp only
  split
  · split
    · exact (within_quiet h (Or.inr rfl)).archive result
    · refine ends_bind.mpr ((leaves_learn_onMenu h _ result).mono (fun a t₁ h₁ => ?_)
        fun _ _ _ => True.intro)
      rw [← h₁.2]
      exact ends_proceed_within h₁.1 hresult a.1 a.2
  · exact ends_proceed_within h hresult [] false

end Order

end Turn

/-! ## 5. Somebody who asks for several at once -/

theorem lands_roll_even (x p : ℝ) :
    Lands (Chance.Even x) (roll p) (· = decide (x < p)) := by
  rintro c ⟨used, rfl⟩
  exact ⟨⟨used + 1, rfl⟩, rfl⟩

namespace Order

/-- A sandwich of one thing, so many times. -/
def pile (i : Ingredient) (n : Nat) : Sandwich := { ingredients := List.replicate n i }

/-- A customer that has no likes and dislikes, asks straight away for what it wants, and may say how
many. -/
structure Counting (p : Personality ℝ) : Prop where
  allergies : p.allergies = []
  favorites : p.favorites = []
  forgetfulness : p.forgetfulness = 0
  shyness : p.shyness = 0
  numbers : 0 < p.language.numbers

variable {i : Ingredient} {n most : Nat} {p : Personality ℝ}

/-- All of a pile follow each other. -/
theorem runLength_pile (hn : 0 < n) :
    runLength (Wish.outlook (pile i n).ingredients 0) 0 i = n := by
  have hlength : 0 < (List.replicate n i).length := by rwa [List.length_replicate]
  have hrun := runLength_outlook hlength
  rw [List.getElem_replicate, List.drop_replicate, List.takeWhile_replicate,
    if_pos (by simp [Ingredient.same]), List.length_replicate] at hrun
  show runLength (Wish.outlook (List.replicate n i) 0) 0 i = n
  omega

/-- **A pile is asked for at once**, as much of it as there are words for. -/
theorem lands_askNext_pile (h : Counting p) (hn : 1 < n) (hmost : 1 ≤ most) {o : Order}
    (hdesired : o.desired = pile i n) (hhistory : o.history = []) (hcount : o.maxCount = most) :
    Lands (Chance.Even 0) (askNext p o {} (Wish.outlook (pile i n).ingredients 0) 0)
      (· = some (.repeated (min n most) (.add i .top))) := by
  have hlength : 0 < (pile i n).ingredients.length := by
    rw [pile, List.length_replicate]
    omega
  have hget : (Wish.outlook (pile i n).ingredients 0)[0]? = some (Wish.unmet i) := by
    rw [Wish.getElem?_outlook hlength]
    exact congrArg (some ∘ Wish.unmet) (List.getElem_replicate _)
  have hwanted : wanted? (Wish.outlook (pile i n).ingredients 0) 0 = some 0 := by
    unfold wanted?
    rw [hget]
    rfl
  have hopen : (o.desired.ensures i || ({} : Sandwich).ensures i || o.justAsked i) = false := by
    rw [hdesired, justAsked, hhistory]
    rfl
  have hshy : p.shyness * (1.0 - p.stress) = 0 := by rw [h.shyness, zero_mul]
  have hseveral : o.severalAtOnce n (.add i .top) =
      .ok (.repeated (min n most) (.add i .top)) := by
    have hmin : min (n : Int) (most : Int) = ((min n most : Nat) : Int) := by omega
    unfold severalAtOnce
    rw [hcount]
    simp only [hmin, Int.toNat_natCast]
    rw [if_neg (by omega)]
  unfold askNext
  rw [hwanted]
  simp only [hget, Wish.unmet, hopen, Bool.false_eq_true, if_false]
  refine lands_bind (lands_roll_even 0 _) fun ask hask => ?_
  rw [hshy, decide_eq_false (lt_irrefl 0)] at hask
  subst hask
  rw [runLength_pile (by omega), if_neg Bool.false_ne_true, if_pos hn]
  refine lands_bind (lands_roll_even 0 _) fun several hyes => ?_
  rw [decide_eq_true h.numbers] at hyes
  subst hyes
  rw [if_pos rfl, hseveral]
  exact lands_pure rfl

/-- The cascade in view of an empty sandwich. -/
theorem ends_pick_pile {tb : Table ℝ} (h : Counting tb.mind.personality) (hn : 1 < n)
    (hmost : 1 ≤ most) (hdesired : tb.order.desired = pile i n) (hhistory : tb.order.history = [])
    (hcount : tb.order.maxCount = most) (hc : tb.mind.chance.Even 0) :
    Ends (pick {}) tb (fun a _ => a = some (.repeated (min n most) (.add i .top))) never := by
  have hnames : ({} : Sandwich).names = tb.order.desired.names.take 0 := rfl
  have hlength : 0 < tb.order.desired.names.length := by
    have hpile : (pile i n).names.length = n := by simp [pile, Sandwich.names]
    rw [hdesired, hpile]
    omega
  have hzero : Lands (Chance.Even 0) (roll (0 : ℝ)) (· = false) :=
    (lands_roll_even 0 0).imp fun b hb => hb.trans (decide_eq_false (lt_irrefl 0))
  have himpulse : Lands (Chance.Even 0) (impulse tb.mind.personality (pile i n) 0)
      (· = (pile i n, 0)) := by
    unfold impulse
    rw [h.favorites]
    exact lands_pure rfl
  have hws : Wish.listOf (anyIncludes ([] : List (Preference ℝ))) (pile i n) {} =
      Wish.outlook (pile i n).ingredients 0 :=
    Wish.listOf_outlook (fun _ => rfl) (hdesired ▸ hnames)
  have hask := lands_askNext_pile (o := { tb.order with desired := pile i n }) h hn hmost rfl
    hhistory hcount
  refine ends_pick_onward hzero h.allergies h.forgetfulness hc hlength hnames fun c₁ hc₁ => ?_
  unfold askOnward
  rw [ends_bind, ends_get, ends_bind]
  simp only [Table.withChance, hdesired]
  refine (Table.ends_lucky_kind himpulse hc₁).imp ?_
  rintro _ _ ⟨rfl, c₂, hc₂, rfl⟩
  rw [ends_bind, Table.ends_reorder, ends_bind, hws]
  refine Ends.imp (Table.ends_lucky_kind hask ?_) ?_
  · exact hc₂
  · rintro _ _ ⟨rfl, -⟩
    rfl

/-- The chance to say how many, after one idle turn, of who never missed one. -/
theorem faded_one_pos : (0 : ℝ) < faded 1 1 := by
  have hlog : Real.log ((1 + 1 : Int) : ℝ) < 1000 := by
    have h := Real.log_le_sub_one_of_pos (x := ((1 + 1 : Int) : ℝ)) (by norm_num)
    push_cast at h ⊢
    linarith
  have hfade : Real.log ((1 + 1 : Int) : ℝ) / 1000.0 < 1 := by
    rw [div_lt_one (by norm_num)]
    norm_num at hlog ⊢
    exact hlog
  have hzero : (0.0 : ℝ) = 0 := by norm_num
  unfold faded Scalar.greatest fadeDivisor
  rw [Scalar.ofInt_real, Scalar.ln_real, hzero, if_pos (by linarith)]
  linarith

/-- What idle turns make of somebody who knows every word. -/
theorem exists_fade_customer : ∃ q, House.customer.fade [] = (.ok (), q) ∧ Counting q := by
  exact ⟨House.customer.practised (.uniform (faded 1 1))
    [("adposition", 1), ("conjunction", 1), ("numbers", 1), ("adverbs", 1)], rfl,
    ⟨rfl, rfl, rfl, rfl, faded_one_pos⟩⟩

/-- **Somebody asks for a pile at once**, as much of it as there are words for. -/
theorem exists_next_pile {t : Taxonomy} (hi : t.Has i.name) (hn : 1 < n) (hmost : 1 ≤ most) :
    ∃ tb tb' : Table ℝ, tb.OnMenu t ∧ tb.mind.chance.Proper ∧ tb.order.maxCount = most ∧
      (next {}).perform tb = (.ok (some (.repeated (min n most) (.add i .top))), tb') := by
  obtain ⟨q, hfade, hq⟩ := exists_fade_customer
  let tb : Table ℝ := ⟨{ desired := pile i n, maxCount := most }, House.customer,
    .scripted (fun _ => 0) 0⟩
  have hproper : tb.mind.chance.Proper := fun _ => ⟨le_refl 0, zero_lt_one⟩
  have hmenu : tb.OnMenu t := by
    refine ⟨fun name hname => ?_, nofun, hproper.fair⟩
    obtain ⟨j, hj, rfl⟩ := List.mem_map.mp hname
    rw [List.eq_of_mem_replicate hj]
    exact hi
  have hfaded : (Table.minded (Mind.fade [])).perform tb = (.ok (), tb.withPersonality q) := by
    have hmind : tb.mind.personality.fade [] = (.ok (), q) := hfade
    unfold Table.minded Mind.fade
    rw [perform_on, perform_on, perform_ofStep, hmind]
    rfl
  have hgoing : (tb.withPersonality q).order.gaveUp = false := rfl
  have hnext : Ends (next {}) tb
      (fun a _ => a = some (.repeated (min n most) (.add i .top))) never := by
    show Ends (proceed {} [] false) tb _ _
    unfold proceed
    rw [ends_bind]
    refine ends_of_perform hfaded ?_
    rw [ends_bind, ends_get, hgoing, if_neg Bool.false_ne_true, if_neg Bool.false_ne_true,
      ends_bind]
    have hpick : Ends (pick {}) (tb.withPersonality q)
        (fun a _ => a = some (.repeated (min n most) (.add i .top))) never :=
      ends_pick_pile hq hn hmost rfl rfl rfl ⟨0, rfl⟩
    refine hpick.imp ?_
    rintro _ tb' rfl
    rfl
  obtain ⟨a, tb', hperform, rfl⟩ := hnext.exists
  exact ⟨tb, tb', hmenu, hproper, rfl, hperform⟩

/-! ## 6. What is said -/

end Order

/-- Whether everything that may be asked for at once has a word, where that is as many as the largest
number, but at least one. -/
def Lexicon.CountsTo (lex : Lexicon) (largest : Nat) : Prop :=
  largest ≠ 0 ∧ ∀ n : Nat, 2 ≤ n → n ≤ largest → lex.Counts n

namespace Order

variable {t : Taxonomy} {words : List (String × Entry)} {largest : Nat}

/-- So many at once have a word exactly if all of them have. -/
theorem countsTo_iff (hl : (Lexicon.build t words).largestNumber = .ok largest) :
    (Lexicon.build t words).CountsTo largest ↔
      ∀ n, CutTo (max 1 (largest : Int)) n → (Lexicon.build t words).Counts n := by
  obtain ⟨-, hle, hattained⟩ := Lexicon.greatestNumber_spec hl
  constructor
  · rintro ⟨hzero, hcounts⟩ n ⟨run, hrun, hn⟩
    by_cases htwo : 2 ≤ n
    · exact hcounts n htwo (by omega)
    · -- only one at once may be asked for, and then one is the largest number
      obtain rfl : n = largest := by omega
      exact hattained.resolve_left hzero
  · intro h
    refine ⟨?_, fun n htwo hn => h n ⟨n, htwo, by omega⟩⟩
    rintro rfl
    obtain ⟨p, hp, hone⟩ := h 1 ⟨2, by omega, by omega⟩
    have := hle p hp 1 hone
    omega

section Said

variable (h : Lexicon.Complete t words)
  (hl : (Lexicon.build t words).largestNumber = .ok largest)

include h hl

/-- What a customer asks for is said, or it is so many of something that there is no word for how
many. -/
theorem Within.said {x : Operation} {o : Order}
    (hx : Within t (max 1 (largest : Int)) (some x) o) : x.Said (Lexicon.build t words) ∨
      ∃ n i, x = .repeated n (.add i .top) ∧ CutTo (max 1 (largest : Int)) n ∧
        x.Unsaid (Lexicon.build t words) n := by
  obtain ⟨hreads, -⟩ := Lexicon.greatestNumber_spec hl
  rcases Operation.said_or_unsaid h hreads (hx.named x rfl) with ⟨hsaid, -⟩ | ⟨n, hn, hunsaid⟩
  · exact Or.inl hsaid
  · rcases hx.portions x rfl with hnone | ⟨m, i, rfl, hm⟩
    · rw [hnone] at hn
      cases hn
    · obtain rfl : n = m := List.mem_singleton.mp hn
      exact Or.inr ⟨n, i, rfl, hm, hunsaid⟩

/-- **When customers can say whatever they pick**: if there is a word for every number up to the
largest, from two on, and for one if that is the largest. -/
theorem next_said_iff : (∀ (tb tb' : Table ℝ) (result : Sandwich) (x : Operation), tb.OnMenu t →
      tb.mind.chance.Proper → result.From t → tb.order.maxCount = max 1 (largest : Int) →
      (next result).perform tb = (.ok (some x), tb') → x.Said (Lexicon.build t words)) ↔
    (Lexicon.build t words).CountsTo largest := by
  rw [countsTo_iff hl]
  constructor
  · rintro hsaid n ⟨run, hrun, hn⟩
    by_contra hmissing
    have hmost : ((max 1 largest : Nat) : Int) = max 1 (largest : Int) := by omega
    obtain ⟨tb, tb', hmenu, hproper, hcount, hperform⟩ := exists_next_pile (i := t.root)
      ⟨_, t.root_mem_walk, rfl⟩ hrun (le_max_left 1 largest)
    obtain rfl : n = min run (max 1 largest) := by omega
    obtain ⟨ts, -, hts, -⟩ := hsaid tb tb' {} _ hmenu hproper nofun (hcount.trans hmost) hperform
    obtain ⟨hreads, -⟩ := Lexicon.greatestNumber_spec hl
    rcases h.wordForNumber_cases hreads (min run (max 1 largest)) with ⟨hyes, -⟩ | ⟨-, hno⟩
    · exact hmissing hyes
    · rw [Operation.encode, hno] at hts
      cases hts
  · intro hcounts tb tb' result x hmenu _ hresult hcount hperform
    have hwithin := ends_next_within hmenu hresult
    unfold Ends at hwithin
    rw [hperform, hcount] at hwithin
    rcases hwithin.said h hl with hsaid | ⟨n, i, -, hn, hno, -⟩
    · exact hsaid
    · exact absurd (hcounts n hn) hno

/-- **What a customer says** is what it picked, or an affirmation in place of so many of something
that there is no word for how many. -/
theorem nextRequest_said {R : Type} [Scalar R] {a : Agent R}
    (ha : a.lexicon = Lexicon.build t words) {turn : Nat} (hturn : (turn : Int) < a.config.maxTurns)
    {seat : Seat R} {result : Sandwich} (hmenu : seat.table.OnMenu t) (hresult : result.From t)
    (hcount : seat.table.order.maxCount = max 1 (largest : Int)) :
    Ends (Customer.nextRequest a turn result) seat (fun y seat' => ∀ z ∈ y, ∃ x tb,
      (next result).perform seat.table = (.ok (some x), tb) ∧
      ((x.Said a.lexicon ∧ z = x ∧ seat' = { seat with table := tb }) ∨
        ((∃ n, x.Unsaid a.lexicon n) ∧ z = .affirm))) fun _ _ => True := by
  unfold Customer.nextRequest
  rw [if_pos hturn, ends_bind]
  unfold Seat.atTable
  rw [ends_on]
  refine ((ends_next_within hmenu hresult).performs).mono (fun y tb hy => ?_) fun _ _ _ => True.intro
  obtain ⟨hperform, hwithin⟩ := hy
  cases y with
  | none => exact nofun
  | some x =>
    rw [hcount] at hwithin
    simp only
    rw [ends_bind]
    rcases hwithin.said h hl with hsaid | ⟨n, i, -, -, hunsaid⟩
    · rw [← ha] at hsaid
      obtain ⟨ts, hne, hencode, hspeak⟩ := hsaid
      rw [hspeak, ends_ok, if_neg (by simpa using hne)]
      rintro z hz
      cases hz
      exact ⟨x, tb, hperform, Or.inl ⟨⟨ts, hne, hencode, hspeak⟩, rfl, rfl⟩⟩
    · rw [← ha] at hunsaid
      rw [hunsaid.2.2, ends_ok, if_pos List.isEmpty_nil, ends_bind, ends_get, ends_bind]
      cases hhistory : tb.order.history with
      | nil =>
        rw [retract, hhistory]
        exact True.intro
      | cons last rest =>
        rw [retract, hhistory]
        rintro z hz
        cases hz
        exact ⟨x, tb, hperform, Or.inr ⟨⟨n, hunsaid⟩, rfl⟩⟩

end Said

/-- **What customers say**, in a language with a word for every usage and as many at once as there are
words for. Whatever a customer picks is on the menu, and it can be said, or it is so many of something
that there is no word for how many; everything that every customer picks can be said exactly if there
is a word for each number up to the largest, from two on, and for one if that is the largest; and
what a customer sends is what it picked, with an affirmation in place of what cannot be said. -/
theorem next_said (h : Lexicon.Complete t words)
    (hl : (Lexicon.build t words).largestNumber = .ok largest) :
    (∀ (R : Type) [Scalar R] (tb tb' : Table R) (result : Sandwich) (x : Operation),
      tb.OnMenu t → result.From t → tb.order.maxCount = max 1 (largest : Int) →
      (next result).perform tb = (.ok (some x), tb') →
      x.Over t ∧ tb'.order.desired.From t ∧ tb'.order.maxCount = max 1 (largest : Int) ∧
        (x.Said (Lexicon.build t words) ∨
          ∃ n i, x = .repeated n (.add i .top) ∧ CutTo (max 1 (largest : Int)) n ∧
            x.Unsaid (Lexicon.build t words) n)) ∧
    ((∀ (tb tb' : Table ℝ) (result : Sandwich) (x : Operation), tb.OnMenu t →
        tb.mind.chance.Proper → result.From t → tb.order.maxCount = max 1 (largest : Int) →
        (next result).perform tb = (.ok (some x), tb') → x.Said (Lexicon.build t words)) ↔
      (Lexicon.build t words).CountsTo largest) ∧
    ∀ (R : Type) [Scalar R] (a : Agent R) (turn : Nat) (seat seat' : Seat R) (result : Sandwich)
      (z : Operation), a.lexicon = Lexicon.build t words → (turn : Int) < a.config.maxTurns →
      seat.table.OnMenu t → result.From t → seat.table.order.maxCount = max 1 (largest : Int) →
      (Customer.nextRequest a turn result).perform seat = (.ok (some z), seat') →
      ∃ x tb, (next result).perform seat.table = (.ok (some x), tb) ∧
        ((x.Said a.lexicon ∧ z = x ∧ seat' = { seat with table := tb }) ∨
          ((∃ n, x.Unsaid a.lexicon n) ∧ z = .affirm)) := by
  refine ⟨?_, next_said_iff h hl, ?_⟩
  · intro R _ tb tb' result x hmenu hresult hcount hperform
    have hwithin := ends_next_within hmenu hresult
    unfold Ends at hwithin
    rw [hperform, hcount] at hwithin
    exact ⟨hwithin.named x rfl, hwithin.desired, hwithin.count, hwithin.said h hl⟩
  · intro R _ a turn seat seat' result z ha hturn hmenu hresult hcount hperform
    have hsent := nextRequest_said h hl ha hturn hmenu hresult hcount
    unfold Ends at hsent
    rw [hperform] at hsent
    exact hsent z rfl

namespace House

theorem complete_house : Lexicon.Complete Taxonomy.house Lexicon.houseWords :=
  ⟨Lexicon.sound_house.tree, Lexicon.sound_house.spelled, Lexicon.sound_house.complete⟩

/-- The words of the house without those for three and four. -/
def sparseWords : List (String × Entry) :=
  Lexicon.houseWords.filter fun p => p.1 != "te" && p.1 != "ko"

theorem complete_sparseWords : Lexicon.Complete Taxonomy.house sparseWords where
  tree := Lexicon.sound_house.tree
  spelled p hp := Lexicon.sound_house.spelled p (List.mem_of_mem_filter hp)
  complete u := Lexicon.exists_of_isOk (by cases u <;> decide +kernel)

/-- Whether a number has a word can be tested. -/
theorem counts_iff_isOk (h : Lexicon.Complete t words)
    (hl : (Lexicon.build t words).largestNumber = .ok largest) (n : Nat) :
    (Lexicon.build t words).Counts n ↔ ((Lexicon.build t words).wordForNumber n).isOk = true := by
  obtain ⟨hreads, -⟩ := Lexicon.greatestNumber_spec hl
  rcases h.wordForNumber_cases hreads n with ⟨hcounts, w, hw⟩ | ⟨hmissing, hw⟩
  · exact iff_of_true hcounts (by rw [hw]; rfl)
  · exact iff_of_false hmissing (by rw [hw]; exact Bool.false_ne_true)

/-- In the house customers can say whatever they pick. Without its words for three and four, one that
wants several things at once picks what it cannot say. -/
theorem next_said_house :
    (∀ (tb tb' : Table ℝ) (result : Sandwich) (x : Operation), tb.OnMenu Taxonomy.house →
      tb.mind.chance.Proper → result.From Taxonomy.house → tb.order.maxCount = 5 →
      (next result).perform tb = (.ok (some x), tb') → x.Said Lexicon.house) ∧
    ∃ (tb tb' : Table ℝ) (result : Sandwich) (x : Operation), tb.OnMenu Taxonomy.house ∧
      tb.mind.chance.Proper ∧ result.From Taxonomy.house ∧ tb.order.maxCount = 5 ∧
      (next result).perform tb = (.ok (some x), tb') ∧
      ¬ x.Said (Lexicon.build Taxonomy.house sparseWords) := by
  have hfive : (Lexicon.build Taxonomy.house Lexicon.houseWords).largestNumber = .ok 5 := by
    decide +kernel
  have hsparse : (Lexicon.build Taxonomy.house sparseWords).largestNumber = .ok 5 := by
    decide +kernel
  obtain ⟨-, hall, -⟩ := next_said complete_house hfive
  obtain ⟨-, hsome, -⟩ := next_said complete_sparseWords hsparse
  constructor
  · have hwords : ∀ n ∈ List.range' 2 4,
        ((Lexicon.build Taxonomy.house Lexicon.houseWords).wordForNumber (n : Nat)).isOk = true := by
      decide +kernel
    exact hall.mpr ⟨by decide, fun n htwo hn => (counts_iff_isOk complete_house hfive n).mpr
      (hwords n (List.mem_range'_1.mpr ⟨htwo, by omega⟩))⟩
  · have hgap : ¬ (Lexicon.build Taxonomy.house sparseWords).CountsTo 5 := by
      rintro ⟨-, hcounts⟩
      have hthree := (counts_iff_isOk complete_sparseWords hsparse 3).mp
        (hcounts 3 (by decide) (by decide))
      revert hthree
      decide +kernel
    rw [← hsome] at hgap
    push Not at hgap
    obtain ⟨tb, tb', result, x, hmenu, hproper, hresult, hcount, hperform, hunsaid⟩ := hgap
    exact ⟨tb, tb', result, x, hmenu, hproper, hresult, hcount, hperform, hunsaid⟩

end House

end Order

end DeliTalk
