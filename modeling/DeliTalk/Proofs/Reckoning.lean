import DeliTalk.Proofs.Aptness
import DeliTalk.Proofs.Cravings

/-!
# How a customer keeps count

Each turn a customer judges what came of the last thing it said. What it asks for would change the
sandwich it was said to, so an edit is never taken for a question that went wrong: it worked or it
did not. The failures since the last success are counted, and nothing else; when there are as many
as the customer puts up with, it says nothing more.

* `Verdict`, `Order.verdict`: how the last thing said is judged in view of a result.
* `Verdict.sinceSuccess`: how many edits were judged since the last success.
* `Order.Asks`: where some turns of a customer lead, with things taken back and heard in between.
* `Order.perform_next_judged`: a turn is the verdict, and what follows from it.
* `Order.Asks.reckons`: what an order remembers of a run.
* `Order.next_reckons`: how often a customer fails, and when it has had enough.
-/

namespace DeliTalk

open Act

/-! ## 1. Verdicts -/

/-- What a customer makes of what came of the last thing it said: an edit worked or did not, there
was nothing to judge, or what was no edit changed the sandwich. -/
inductive Verdict where
  | success | failure | nothing | misled
deriving DecidableEq

namespace Verdict

/-- Whether it is an edit that was judged. -/
def judges : Verdict → Bool
  | success | failure => true
  | nothing | misled => false

/-- What a verdict does to a count of failures. -/
def counted : Verdict → Nat → Nat
  | success, _ => 0
  | failure, n => n + 1
  | nothing, n => n
  | misled, n => n

/-- How many edits were judged since the last success, or since the beginning. The last verdict
comes first. -/
def sinceSuccess (vs : List Verdict) : Nat := (vs.takeWhile fun v => v ≠ success).countP judges

theorem sinceSuccess_cons (v : Verdict) (vs : List Verdict) :
    sinceSuccess (v :: vs) = v.counted (sinceSuccess vs) := by
  cases v with
  | success => rfl
  | failure => exact List.countP_cons_of_pos rfl
  | nothing => exact List.countP_cons_of_neg Bool.false_ne_true
  | misled => exact List.countP_cons_of_neg Bool.false_ne_true

end Verdict

namespace Order

/-- The verdict on the last thing said. -/
def verdict (R : Type) [Scalar R] (o : Order) (result : Sandwich) : Verdict :=
  match o.history, o.lastResult with
  | last :: _, some _ =>
    if o.questionFailed R result then .misled
    else if o.lastSucceeded R result then .success
    else if last.changesSandwich then .failure
    else .nothing
  | _, _ => .nothing

/-- An order after a verdict. -/
def judged (o : Order) (v : Verdict) : Order := { o with failures := v.counted o.failures }

end Order

/-! ## 2. A turn is a verdict and what follows -/

/-- What a verdict makes of a table: it changes the count, and only a success counts any skill as
used or resets its counter. -/
structure Table.Judged {R : Type} [Scalar R] (t : Table R) (v : Verdict) (used : List Skill)
    (t' : Table R) : Prop where
  order : t'.order = t.order.judged v
  unused : v ≠ .success → used = []
  fades : v ≠ .success → ∀ skill, t'.mind.personality.Fades skill ↔ t.mind.personality.Fades skill

namespace Order

variable {R : Type} [Scalar R]

section

variable {t : Table R} {result : Sandwich}

/-- Learning never fails, and does what the verdict says. -/
theorem perform_learn {last : Operation} {rest : List Operation} {s : Sandwich}
    (hhistory : t.order.history = last :: rest) (hlast : t.order.lastResult = some s)
    (hquestion : t.order.questionFailed R result = false) :
    ∃ used polite t', (learn last result).perform t = (.ok (used, polite), t') ∧
      t.Judged (t.order.verdict R result) used t' := by
  unfold learn verdict
  rw [perform_bind, perform_get]
  simp only [hhistory, hlast, hquestion, Bool.false_eq_true, if_false]
  by_cases hsucceeded : t.order.lastSucceeded R result = true
  · simp only [hsucceeded, if_true]
    exact ⟨_, _, _, rfl, rfl, fun h => absurd rfl h, fun h => absurd rfl h⟩
  · simp only [hsucceeded]
    by_cases hchanges : last.changesSandwich = true
    · simp only [hchanges, if_true]
      exact ⟨_, _, _, rfl, rfl, fun _ => rfl, fun _ _ => Iff.rfl⟩
    · simp only [hchanges]
      exact ⟨_, _, _, rfl, rfl, fun _ => rfl, fun _ _ => Iff.rfl⟩

/-- **A turn is a verdict and what follows from it**: thanks, where what was no edit changed the
sandwich, and otherwise the rest of the turn with the new count. -/
theorem perform_next_judged (t : Table R) (result : Sandwich) :
    (t.order.verdict R result = .misled ∧
      (next result).perform t = (ask .affirm result).perform t) ∨
    (t.order.verdict R result ≠ .misled ∧ ∃ used polite t',
      t.Judged (t.order.verdict R result) used t' ∧
      (next result).perform t = (proceed result used polite).perform t') := by
  have hnothing : t.order.verdict R result = .nothing →
      t.order.verdict R result ≠ .misled ∧ t.Judged (t.order.verdict R result) [] t := by
    intro h
    rw [h]
    exact ⟨nofun, rfl, fun _ => rfl, fun _ _ => Iff.rfl⟩
  unfold next
  rw [perform_bind, perform_get]
  cases hhistory : t.order.history with
  | nil =>
    obtain ⟨hverdict, hjudged⟩ := hnothing (by unfold verdict; simp only [hhistory])
    exact Or.inr ⟨hverdict, [], false, t, hjudged, by simp only [hhistory]⟩
  | cons last rest =>
    cases hlast : t.order.lastResult with
    | none =>
      obtain ⟨hverdict, hjudged⟩ := hnothing (by unfold verdict; simp only [hhistory, hlast])
      exact Or.inr ⟨hverdict, [], false, t, hjudged, by simp only [hhistory, hlast]⟩
    | some s =>
      by_cases hquestion : t.order.questionFailed R result = true
      · refine Or.inl ⟨?_, ?_⟩
        · unfold verdict
          simp only [hhistory, hlast, hquestion, if_true]
        · simp only [hhistory, hlast, hquestion, if_true]
      · rw [Bool.not_eq_true] at hquestion
        obtain ⟨used, polite, t', hlearn, hjudged⟩ := perform_learn hhistory hlast hquestion
        refine Or.inr ⟨?_, used, polite, t', hjudged, ?_⟩
        · unfold verdict
          simp only [hhistory, hlast, hquestion, Bool.false_eq_true, if_false]
          split
          · nofun
          · split <;> nofun
        · simp only [hhistory, hlast, hquestion, Bool.false_eq_true, if_false]
          rw [perform_bind, hlearn]

/-- Who has had enough says nothing, if the counters of the unused skills have logarithms. -/
theorem perform_proceed_gaveUp (hgaveUp : t.order.gaveUp = true) (result : Sandwich)
    (used : List Skill) (polite : Bool) :
    ((∀ s ∉ used, t.mind.personality.Fades s) →
      ∃ t', (proceed result used polite).perform t = (.ok none, t')) ∧
    ((∃ s ∉ used, ¬ t.mind.personality.Fades s) →
      ∃ e t', (proceed result used polite).perform t = (.error e, t')) := by
  have hminded : (Table.minded (Mind.fade used)).perform t =
      ((t.mind.personality.fade used).1, { t with mind := { t.mind with
        personality := (t.mind.personality.fade used).2 } }) := by
    unfold Table.minded Mind.fade
    rw [perform_on, perform_on, perform_ofStep]
  obtain ⟨l, r, -, ⟨hall, hfade⟩ | ⟨k, hk, hnot, hfade⟩⟩ :=
    Personality.fade_spec used t.mind.personality
  · rw [hfade] at hminded
    refine ⟨fun _ => ?_, fun h => ?_⟩
    · unfold proceed
      rw [perform_bind, hminded]
      simp only
      rw [perform_bind, perform_get]
      simp only [hgaveUp, if_true]
      exact ⟨_, rfl⟩
    · obtain ⟨k, hk, hnot⟩ := h
      exact absurd (hall k hk) hnot
  · rw [hfade] at hminded
    refine ⟨fun hall => absurd (hall k hk) hnot, fun _ => ?_⟩
    unfold proceed
    rw [perform_bind, hminded]
    exact ⟨_, _, rfl⟩

end

/-! ## 3. What a turn says -/

/-- What a customer says in view of a sandwich: thanks, a question, or an edit that would change
the sandwich. -/
inductive Tells (R : Type) [Scalar R] (seen : Sandwich) : Operation → Prop where
  | thanks : Tells R seen .affirm
  | question (i : Ingredient) : Tells R seen (.checkFor i)
  | edit {x : Operation} (changes : x.changesSandwich = true)
      (effect : (x.imagine R seen).names ≠ seen.names) : Tells R seen x

/-- Whatever is apt is a question, or an edit with an effect. -/
theorem Apt.tells {allergies : List (Preference R)} {o : Order} {result : Sandwich} {x : Operation}
    (h : Apt allergies o result x) : Tells R result x := by
  have hedit : x.changesSandwich = true → (∀ i, x ≠ .checkFor i) → Tells R result x :=
    fun hchanges hnoquestion => .edit hchanges (h.changes hnoquestion)
  cases h with
  | question => exact .question _
  | removal => exact hedit rfl nofun
  | ban => exact hedit rfl nofun
  | addition => exact hedit rfl nofun
  | several => exact hedit rfl nofun

/-- Whether one order is another one with other wishes. -/
def Rewished (o o' : Order) : Prop :=
  ∃ desired pending, o' = { o with desired := desired, pending := pending }

theorem Rewished.refl (o : Order) : o.Rewished o := ⟨o.desired, o.pending, rfl⟩

theorem Rewished.trans {o o' o'' : Order} (h : o.Rewished o') (h' : o'.Rewished o'') :
    o.Rewished o'' := by
  obtain ⟨desired, pending, rfl⟩ := h
  obtain ⟨desired', pending', rfl⟩ := h'
  exact ⟨desired', pending', rfl⟩

/-- What the server says back changes the wishes. -/
theorem rewished_hear : ∀ (x : Operation) (o : Order), o.Rewished (o.hear x) := by
  intro x
  induction x with
  | repeated n x ih => exact ih
  | persist x ih => exact ih
  | compound x y ihx ihy => exact fun o => (ihx o).trans (ihy (o.hear x))
  | remove i => exact fun o => ⟨_, _, rfl⟩
  | removeAll i => exact fun o => ⟨_, _, rfl⟩
  | ensure i => exact fun o => ⟨_, _, rfl⟩
  | negate =>
    intro o
    unfold hear
    split
    · exact ⟨_, _, rfl⟩
    · exact .refl o
  | _ => exact .refl

/-- Whether the order on one table is that on another one with other wishes, and the machine is the
same. -/
def RewishedAt (t t' : Table R) : Prop :=
  t.order.Rewished t'.order ∧ t'.mind.personality = t.mind.personality

section

variable {t₀ t : Table R} {result : Sandwich}

omit [Scalar R] in
theorem leaves_lucky {α : Type} (x : Luck R α) (h : RewishedAt t₀ t) :
    Leaves (Table.lucky x) t (RewishedAt t₀) := by
  unfold Table.lucky Mind.lucky
  exact ends_on.mpr (leaves_on x fun _ => h)

omit [Scalar R] in
theorem leaves_firstOf {x y : Act (Table R) (Option Operation)} (hx : Leaves x t (RewishedAt t₀))
    (hy : ∀ t' : Table R, RewishedAt t₀ t' → Leaves y t' (RewishedAt t₀)) :
    Leaves (firstOf x y) t (RewishedAt t₀) := by
  unfold firstOf
  refine leaves_bind hx fun a t' h => ?_
  cases a with
  | some x => exact leaves_pure h
  | none => exact hy t' h

theorem leaves_askOnward (p : Personality R) (avoided : List (Preference R)) (result : Sandwich)
    (next : Nat) (h : RewishedAt t₀ t) :
    Leaves (askOnward p avoided result next) t (RewishedAt t₀) := by
  unfold askOnward
  refine ends_bind.mpr (ends_get.mpr ?_)
  refine leaves_bind (leaves_lucky _ h) fun a t₁ h₁ => ?_
  obtain ⟨desired, next⟩ := a
  have hcraved : RewishedAt t₀ { t₁ with order := { t.order with desired := desired } } :=
    ⟨h.1.trans ⟨_, _, rfl⟩, h₁.2⟩
  refine leaves_bind hcraved fun _ t₂ h₂ => ?_
  refine leaves_bind (leaves_lucky _ h₂) fun answer t₃ h₃ => ?_
  split
  · exact ⟨h₃.1.trans ⟨_, _, rfl⟩, h₃.2⟩
  · exact leaves_pure h₃

/-- **The cascade** changes nothing of an order but its wishes, and nothing of the machine. -/
theorem leaves_pick_rewishedAt (result : Sandwich) (t : Table R) :
    Leaves (pick result) t (RewishedAt t) := by
  have hstart : RewishedAt t t := ⟨.refl t.order, rfl⟩
  unfold pick
  refine ends_bind.mpr (ends_get.mpr ?_)
  simp only
  split
  · exact leaves_pure hstart
  · refine leaves_bind (leaves_lucky _ hstart) fun avoided t₁ h₁ => ?_
    refine leaves_bind (leaves_lucky _ h₁) fun forgot t₂ h₂ => ?_
    refine leaves_firstOf (leaves_lucky _ h₂) fun t₃ h₃ => ?_
    refine leaves_firstOf (leaves_lucky _ h₃) fun t₄ h₄ => ?_
    refine leaves_firstOf (leaves_lucky _ h₄) fun t₅ h₅ => ?_
    exact leaves_askOnward _ _ _ _ h₅

theorem leaves_pick (result : Sandwich) (t : Table R) :
    Leaves (pick result) t fun t' => t.order.Rewished t'.order :=
  (leaves_pick_rewishedAt result t).mono (fun _ _ h => h.1) fun _ _ h => h.1

/-- What comes of a turn in which an order was judged: nothing is said, or it is remembered what was
said and to which sandwich. -/
inductive Answers (R : Type) [Scalar R] (o : Order) (result : Sandwich) :
    Option Operation → Order → Prop where
  | silent {o' : Order} (rewished : o.Rewished o') : Answers R o result none o'
  | told {x : Operation} {o' : Order} (going : o.gaveUp = false) (tells : Tells R result x)
      (rewished : o.Rewished o') : Answers R o result (some x) (o'.archive x result)

/-- Whatever comes of a turn, the count and how much the customer puts up with stay the same, and
nothing is said by who has had enough. -/
theorem Answers.kept {a : Option Operation} {o' : Order} (h : Answers R o result a o') :
    o'.failures = o.failures ∧ o'.maxFailures = o.maxFailures ∧
      (a = none ∧ o'.gaveUp = true ↔ o.gaveUp = true) := by
  cases h with
  | silent hwishes =>
    obtain ⟨desired, pending, rfl⟩ := hwishes
    exact ⟨rfl, rfl, fun h => h.2, fun h => ⟨rfl, h⟩⟩
  | told hgoing _ hwishes =>
    obtain ⟨desired, pending, rfl⟩ := hwishes
    refine ⟨rfl, rfl, fun h => absurd h.1 (Option.some_ne_none _), fun h => ?_⟩
    rw [hgoing] at h
    cases h

/-- The rest of a turn. -/
theorem ends_proceed_answers (result : Sandwich) (used : List Skill) (polite : Bool)
    (t : Table R) :
    Ends (proceed result used polite) t (fun a t' => Answers R t.order result a t'.order)
      fun _ t' => t.order.Rewished t'.order := by
  unfold proceed
  have hfade : Leaves (Table.minded (Mind.fade used)) t fun t' => t'.order = t.order :=
    leaves_on _ fun _ => rfl
  refine ends_bind.mpr (hfade.mono (fun _ t₁ h₁ => ?_) fun _ t₁ h₁ => ?_)
  · rw [← h₁]
    refine ends_bind.mpr (ends_get.mpr ?_)
    by_cases hgaveUp : t₁.order.gaveUp = true
    · rw [if_pos hgaveUp]
      exact .silent (.refl _)
    · rw [if_neg hgaveUp]
      rw [Bool.not_eq_true] at hgaveUp
      split
      · exact .told hgaveUp .thanks (.refl _)
      · refine ends_bind.mpr (((ends_pick_apt result t₁).and (leaves_pick result t₁)).mono
          (fun a t₂ h₂ => ?_) fun _ t₂ h₂ => h₂.2)
        obtain ⟨hapt, hrewished⟩ := h₂
        cases a with
        | none => exact .silent hrewished
        | some x => exact .told hgaveUp (hapt x rfl).tells hrewished
  · rw [h₁]
    exact .refl _

/-- **A turn**: the count is what the verdict makes of it, and who has had enough says nothing. After
a question that went wrong this is not looked at, so it is a premise. -/
theorem ends_next_answers (t : Table R) (result : Sandwich)
    (hgoing : t.order.verdict R result = .misled → t.order.gaveUp = false) :
    Ends (next result) t
      (fun a t' => Answers R (t.order.judged (t.order.verdict R result)) result a t'.order)
      fun _ t' => (t.order.judged (t.order.verdict R result)).Rewished t'.order := by
  rcases perform_next_judged t result with
    ⟨hverdict, hnext⟩ | ⟨-, used, polite, t₁, hjudged, hnext⟩
  · unfold Ends
    rw [hnext, hverdict]
    exact .told (hgoing hverdict) .thanks (.refl _)
  · unfold Ends
    rw [hnext, ← hjudged.order]
    exact ends_proceed_answers result used polite t₁

end

/-! ## 4. Verdicts on what was said -/

section

variable {o : Order} {said : Operation} {rest : List Operation} {seen : Sandwich}

/-- Where nothing was said yet, there is nothing to judge. -/
theorem verdict_fresh (hhistory : o.history = []) (result : Sandwich) :
    o.verdict R result = .nothing := by
  unfold verdict
  simp only [hhistory]

variable (hhistory : o.history = said :: rest) (hlast : o.lastResult = some seen)
  (h : Tells R seen said) (result : Sandwich)

include hhistory hlast h

/-- **An edit worked or it did not**; it is never taken for a question. -/
theorem verdict_edit (hchanges : said.changesSandwich = true) : o.verdict R result =
    if result.names = (said.imagine R seen).names then .success else .failure := by
  cases h with
  | thanks => cases hchanges
  | question i => cases hchanges
  | edit _ effect =>
    have hquestion := questionFailed_of_effect hhistory hlast effect result
    have hsucceeded := lastSucceeded_of_effect hhistory hlast effect result
    unfold verdict
    simp only [hhistory, hlast, hquestion, hsucceeded, hchanges, Bool.false_eq_true, if_false,
      if_true, decide_eq_true_eq]

/-- What is no edit is not judged. -/
theorem verdict_other (hchanges : said.changesSandwich = false) :
    o.verdict R result = .nothing ∨ o.verdict R result = .misled := by
  have hsame : (said.imagine R seen).names = seen.names := by
    cases h with
    | thanks => rfl
    | question i => rfl
    | edit changes => rw [changes] at hchanges; cases hchanges
  have hfailed : o.lastSucceeded R result = false := by
    unfold lastSucceeded
    simp only [hhistory, hlast, hsame]
    by_cases heq : result.names = seen.names
    · simp [heq]
    · simp [heq]
  unfold verdict
  simp only [hhistory, hlast, hfailed, hchanges, Bool.false_eq_true, if_false]
  split
  · exact Or.inr rfl
  · exact Or.inl rfl

end

/-! ## 5. Runs -/

/-- What is remembered of a turn: what the customer saw, its verdict, and what it said, or what
stands in for that if it was taken back. -/
structure Round where
  seen : Sandwich
  verdict : Verdict
  said : Operation

/-- Where some turns of a customer lead from a fresh order, the last one first. In between, things
are taken back and heard in any number. Only the order is carried from turn to turn: the machine may
be any. -/
inductive Asks (R : Type) [Scalar R] : List Round → Order → Prop where
  | start {o : Order} (hhistory : o.history = []) (hfailures : o.failures = 0) : Asks R [] o
  | asked {rounds : List Round} {t t' : Table R} {seen : Sandwich} {x : Operation}
      (h : Asks R rounds t.order) (hnext : (next seen).perform t = (.ok (some x), t')) :
      Asks R (⟨seen, t.order.verdict R seen, x⟩ :: rounds) t'.order
  | retracted {rounds : List Round} {r : Round} {o o' : Order} {x : Operation}
      (h : Asks R (r :: rounds) o) (hretract : o.retract = .ok (x, o')) :
      Asks R ({ r with said := x } :: rounds) o'
  | heard {rounds : List Round} {o : Order} (h : Asks R rounds o) (x : Operation) :
      Asks R rounds (o.hear x)

/-- An order of a customer that has not had enough and remembers its last turn. -/
structure Recalls (R : Type) [Scalar R] (r : Round) (o : Order) : Prop where
  going : o.gaveUp = false
  seen : o.lastResult = some r.seen
  said : ∃ rest, o.history = r.said :: rest
  tells : Tells R r.seen r.said

/-- What an order remembers of a run: how many edits were judged since the last success, and the
last turn. -/
inductive Reckons (R : Type) [Scalar R] : List Round → Order → Prop where
  | fresh {o : Order} (hhistory : o.history = []) (hfailures : o.failures = 0) : Reckons R [] o
  | going {rounds : List Round} {r : Round} {o : Order}
      (hfailures : o.failures = Verdict.sinceSuccess (r.verdict :: rounds.map (·.verdict)))
      (hrecalls : Recalls R r o) : Reckons R (r :: rounds) o

namespace Reckons

variable {rounds : List Round} {o o' : Order}

theorem failures (h : Reckons R rounds o) :
    o.failures = Verdict.sinceSuccess (rounds.map (·.verdict)) := by
  cases h with
  | fresh _ hfailures => exact hfailures
  | going hfailures _ => exact hfailures

theorem rewished (h : Reckons R rounds o) (hwishes : o.Rewished o') : Reckons R rounds o' := by
  obtain ⟨desired, pending, rfl⟩ := hwishes
  cases h with
  | fresh hhistory hfailures => exact .fresh hhistory hfailures
  | going hfailures hrecalls =>
    exact .going hfailures ⟨hrecalls.going, hrecalls.seen, hrecalls.said, hrecalls.tells⟩

/-- Thanks stand in for what is taken back. -/
theorem retracted {r : Round} (h : Reckons R (r :: rounds) o) {x : Operation}
    (hretract : o.retract = .ok (x, o')) : Reckons R ({ r with said := x } :: rounds) o' := by
  cases h with
  | going hfailures hrecalls =>
    obtain ⟨rest, hhistory⟩ := hrecalls.said
    unfold retract at hretract
    rw [hhistory] at hretract
    cases hretract
    exact .going hfailures ⟨hrecalls.going, hrecalls.seen, ⟨rest, rfl⟩, .thanks⟩

/-- Only who said something before takes it for a question, and so has not had enough. -/
theorem not_gaveUp (h : Reckons R rounds o) {result : Sandwich}
    (hmisled : o.verdict R result = .misled) : o.gaveUp = false := by
  cases h with
  | fresh hhistory _ =>
    rw [verdict_fresh hhistory] at hmisled
    cases hmisled
  | going _ hrecalls => exact hrecalls.going

/-- The count after one more verdict. -/
theorem failures_judged (h : Reckons R rounds o) (v : Verdict) :
    (o.judged v).failures = Verdict.sinceSuccess (v :: rounds.map (·.verdict)) := by
  rw [Verdict.sinceSuccess_cons, ← h.failures]
  rfl

/-- What comes of the next turn of a run. -/
theorem answers {t t' : Table R} {result : Sandwich} {a : Option Operation}
    (h : Reckons R rounds t.order) (hnext : (next result).perform t = (.ok a, t')) :
    Answers R (t.order.judged (t.order.verdict R result)) result a t'.order := by
  have hends := ends_next_answers t result h.not_gaveUp
  unfold Ends at hends
  rw [hnext] at hends
  exact hends

theorem asked {t t' : Table R} {seen : Sandwich} {x : Operation} (h : Reckons R rounds t.order)
    (hnext : (next seen).perform t = (.ok (some x), t')) :
    Reckons R (⟨seen, t.order.verdict R seen, x⟩ :: rounds) t'.order := by
  have hfailures := h.failures_judged (t.order.verdict R seen)
  have hanswers := h.answers hnext
  generalize t'.order = o' at hanswers ⊢
  cases hanswers with
  | told hgoing htells hwishes =>
    obtain ⟨desired, pending, rfl⟩ := hwishes
    exact .going hfailures ⟨hgoing, rfl, ⟨_, rfl⟩, htells⟩

end Reckons

/-- What is no judgement leaves the count alone. -/
theorem failures_judged_other {o : Order} {v : Verdict} (h : v = .nothing ∨ v = .misled) :
    (o.judged v).failures = o.failures := by
  rcases h with rfl | rfl <;> rfl

/-- **Whatever happens in a run**, the order keeps count. -/
theorem Asks.reckons {rounds : List Round} {o : Order} (h : Asks R rounds o) :
    Reckons R rounds o := by
  induction h with
  | start hhistory hfailures => exact .fresh hhistory hfailures
  | asked _ hnext ih => exact ih.asked hnext
  | retracted _ hretract ih => exact ih.retracted hretract
  | heard _ x ih => exact ih.rewished (rewished_hear x _)

/-! ## 6. How often a customer fails, and when it has had enough -/

/-- What a verdict is about: an edit worked if what came back is what was imagined, and failed
otherwise; nothing else is judged. -/
structure Round.Earns (R : Type) [Scalar R] (r : Round) (result : Sandwich) (v : Verdict) :
    Prop where
  edit : r.said.changesSandwich = true →
    v = if result.names = (r.said.imagine R r.seen).names then .success else .failure
  other : r.said.changesSandwich = false → v = .nothing ∨ v = .misled

/-- The verdict of the next turn is about what was said last. -/
theorem Recalls.earns {r : Round} {o : Order} (h : Recalls R r o) (result : Sandwich) :
    r.Earns R result (o.verdict R result) := by
  obtain ⟨rest, hhistory⟩ := h.said
  exact ⟨verdict_edit hhistory h.seen h.tells result, verdict_other hhistory h.seen h.tells result⟩

namespace Reckons

variable {rounds : List Round} {o : Order}

/-- The first turn judges nothing, and every other one what was said in the turn before. -/
theorem earns (h : Reckons R rounds o) (result : Sandwich) :
    (rounds = [] → o.verdict R result = .nothing) ∧
      ∀ r ∈ rounds.head?, r.Earns R result (o.verdict R result) := by
  cases h with
  | fresh hhistory _ => exact ⟨fun _ => verdict_fresh hhistory result, fun r hr => by cases hr⟩
  | going _ hrecalls =>
    refine ⟨nofun, fun r hr => ?_⟩
    cases hr
    exact hrecalls.earns result

/-- Who has had enough did not just succeed: it would have had enough before. -/
theorem not_success (h : Reckons R rounds o) {result : Sandwich}
    (hgaveUp : (o.judged (o.verdict R result)).gaveUp = true) : o.verdict R result ≠ .success := by
  intro hsuccess
  cases h with
  | fresh hhistory _ =>
    rw [verdict_fresh hhistory] at hsuccess
    cases hsuccess
  | going _ hrecalls =>
    rw [hsuccess] at hgaveUp
    have hmost : o.maxFailures ≤ (0 : Nat) := of_decide_eq_true hgaveUp
    have hgoing : ¬ o.maxFailures ≤ o.failures := of_decide_eq_false hrecalls.going
    omega

end Reckons

/-- Who has had enough after a turn that was no success says nothing, if all counters have
logarithms. -/
theorem perform_next_gaveUp {t : Table R} {result : Sandwich}
    (hgoing : t.order.verdict R result = .misled → t.order.gaveUp = false)
    (hfailed : t.order.verdict R result ≠ .success)
    (hgaveUp : (t.order.judged (t.order.verdict R result)).gaveUp = true) :
    ((∀ s, t.mind.personality.Fades s) → ∃ t', (next result).perform t = (.ok none, t')) ∧
      ((∃ s, ¬ t.mind.personality.Fades s) → ∃ e t', (next result).perform t = (.error e, t')) := by
  rcases perform_next_judged t result with
    ⟨hverdict, -⟩ | ⟨-, used, polite, t₁, hjudged, hnext⟩
  · rw [hverdict] at hgaveUp
    have hfalse := hgoing hverdict
    rw [show t.order.gaveUp = true from hgaveUp] at hfalse
    cases hfalse
  · rw [← hjudged.order] at hgaveUp
    have hproceed := perform_proceed_gaveUp hgaveUp result used polite
    rw [hnext]
    rw [hjudged.unused hfailed] at hproceed ⊢
    refine ⟨fun hall => hproceed.1 fun s _ => (hjudged.fades hfailed s).mpr (hall s), fun h => ?_⟩
    obtain ⟨s, hnot⟩ := h
    exact hproceed.2 ⟨s, List.not_mem_nil, fun hs => hnot ((hjudged.fades hfailed s).mp hs)⟩

/-- **A customer keeps exact count of its failures.** After any run, the failures are the edits that
were judged since the last success. In the next turn an edit said last worked or failed, and nothing
else is judged or counted. The customer says nothing for having had enough exactly if there are as
many failures as it puts up with; with a counter that has no logarithm, that turn is a fault. -/
theorem next_reckons {rounds : List Round} {t : Table R} (h : Asks R rounds t.order)
    (result : Sandwich) :
    let verdict := t.order.verdict R result
    let count := Verdict.sinceSuccess (verdict :: rounds.map (·.verdict))
    t.order.failures = Verdict.sinceSuccess (rounds.map (·.verdict)) ∧
    (rounds = [] → verdict = .nothing) ∧
    (∀ r ∈ rounds.head?, r.Earns R result verdict ∧
      (r.said.changesSandwich = false → count = t.order.failures)) ∧
    Ends (next result) t
      (fun answer t' => t'.order.failures = count ∧
        (answer = none ∧ t'.order.gaveUp = true ↔ t.order.maxFailures ≤ count))
      (fun _ t' => t'.order.failures = count) ∧
    (t.order.maxFailures ≤ count →
      ((∀ s, t.mind.personality.Fades s) → ∃ t', (next result).perform t = (.ok none, t')) ∧
      ((∃ s, ¬ t.mind.personality.Fades s) →
        ∃ e t', (next result).perform t = (.error e, t'))) := by
  intro verdict count
  have hreckons := h.reckons
  have hcount : (t.order.judged verdict).failures = count := hreckons.failures_judged verdict
  have hgaveUp : (t.order.judged verdict).gaveUp = true ↔ t.order.maxFailures ≤ count := by
    unfold gaveUp
    rw [hcount, decide_eq_true_iff]
    rfl
  obtain ⟨hfirst, hlast⟩ := hreckons.earns result
  refine ⟨hreckons.failures, hfirst, fun r hr => ⟨hlast r hr, fun hother => ?_⟩, ?_, fun hmax => ?_⟩
  · rw [← hcount]
    exact failures_judged_other ((hlast r hr).other hother)
  · refine (ends_next_answers t result hreckons.not_gaveUp).mono (fun answer t' hanswers => ?_)
      fun e t' hwishes => ?_
    · obtain ⟨hfailures, -, hsilent⟩ := hanswers.kept
      exact ⟨hfailures.trans hcount, hsilent.trans hgaveUp⟩
    · obtain ⟨desired, pending, horder⟩ := hwishes
      rw [horder]
      exact hcount
  · have hgaveUp := hgaveUp.mpr hmax
    exact perform_next_gaveUp hreckons.not_gaveUp (hreckons.not_success hgaveUp) hgaveUp

/-- A calm customer that got nothing yet asks for a portion. -/
theorem exists_portion {t : Table ℝ} {d : Sandwich} {most : Nat} (h : t.Stands d most 0 0)
    (hmost : 1 ≤ most) (hd : d.names ≠ []) :
    ∃ x t', (next {}).perform t = (.ok (some x), t') ∧ x.changesSandwich = true ∧
      t'.mind.personality.Counted := by
  have hnothing : ({} : Sandwich).names = d.names.take 0 := rfl
  obtain ⟨a, t', hnext, hrequested⟩ := (ends_next_calm h hmost hnothing).exists
  cases a with
  | none => exact absurd (List.length_eq_zero_iff.mp hrequested.1.symm) hd
  | some x =>
    obtain ⟨n, i, hportion, -, -, -, hstands⟩ := hrequested.resolve_left fun hthanks =>
      absurd hthanks.2.stands.le (by omega)
    exact ⟨x, t', hnext, by cases hportion <;> rfl,
      (hstands n (Or.inl rfl)).craves.ready.counted⟩

namespace House

/-- A customer that wants a bread, never hesitates, and puts up with one failure. -/
noncomputable def impatient : Table ℝ :=
  ⟨{ desired := wanted, maxFailures := 1 }, { customer with spontaneity := 0 },
    .scripted (fun _ => 0) 0⟩

theorem stands_impatient : impatient.Stands wanted 5 0 0 where
  craves :=
    { calm := ⟨rfl, rfl, rfl, rfl⟩
      ready := ⟨fun _ => by show -1 ≤ (0 : Int); omega, fun _ => ⟨le_refl 0, zero_lt_one⟩⟩
      desired := rfl
      count := rfl
      room := le_refl 1
      few := Nat.zero_lt_one }
  fits := Nat.zero_le 1
  stands := .fresh rfl rfl

/-- It asks for some bread, gets nothing, and says nothing more. -/
theorem reckons_bread : ∃ (x : Operation) (t t' : Table ℝ),
    Asks ℝ [⟨{}, .nothing, x⟩] t.order ∧ x.changesSandwich = true ∧
      (next {}).perform t = (.ok none, t') ∧ t'.order.failures = 1 := by
  obtain ⟨x, t, hnext, hchanges, hcounted⟩ :=
    exists_portion stands_impatient (by decide) (by decide)
  have hstart : Asks ℝ [] impatient.order := .start rfl rfl
  have hrun : Asks ℝ [⟨{}, .nothing, x⟩] t.order := hstart.asked hnext
  have hmost : t.order.maxFailures = 1 := (hstart.reckons.answers hnext).kept.2.1
  have hnames : ({} : Sandwich).names ≠ (x.imagine ℝ {}).names := by
    have htells : Tells ℝ {} x := by
      cases hrun.reckons with
      | going _ hrecalls => exact hrecalls.tells
    cases htells with
    | thanks => cases hchanges
    | question i => cases hchanges
    | edit _ effect => exact effect.symm
  obtain ⟨-, -, hlast, hturn, hmax⟩ := next_reckons hrun {}
  have hverdict : t.order.verdict ℝ {} = .failure := by
    rw [((hlast _ rfl).1.edit hchanges), if_neg hnames]
  have hcount : Verdict.sinceSuccess [t.order.verdict ℝ {}, .nothing] = 1 := by
    rw [hverdict]
    rfl
  have hfades : ∀ s, t.mind.personality.Fades s := fun s =>
    Personality.fades_real.mpr (hcounted s)
  obtain ⟨t', hgaveUp⟩ := (hmax (by rw [hmost, List.map_singleton, hcount]; rfl)).1 hfades
  unfold Ends at hturn
  rw [hgaveUp] at hturn
  exact ⟨x, t, t', hrun, hchanges, hgaveUp, hturn.1.trans hcount⟩

end House

end Order

end DeliTalk
