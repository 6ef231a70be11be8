import DeliTalk.Proofs.Incidents

/-!
# The server's answers are true

A server answers after it did what it was told. The answer is found by going through the
instruction a second time: the first single operation in it that calls for an answer gives it. What
was refused by then was lacked during the turn, and what was lacked is still lacking at its end, so
no answer is out of date.

* `Operation.singles`: the single operations in an operation, from left to right.
* `Truthful`: what an answer says of the turn before it.
* `Order.serve_answers`: every turn either ends with a true answer, or with a counter that has no
  logarithm.
-/

namespace DeliTalk

/-! ## 1. Single operations -/

namespace Operation

/-- The single operations in an operation, from left to right. -/
def singles : Operation → List Operation
  | repeated _ x => singles x
  | compound x y => singles x ++ singles y
  | persist x => singles x
  | x => [x]

/-- Whether an operation is not made of others. -/
def isSingle : Operation → Bool
  | repeated _ _ | compound _ _ | persist _ => false
  | _ => true

theorem isSingle_of_mem : ∀ {x z : Operation}, z ∈ x.singles → z.isSingle = true := by
  intro x
  induction x with
  | repeated n x ih => exact ih
  | compound x y ihx ihy =>
    intro z hz
    exact (List.mem_append.mp hz).elim ihx ihy
  | persist x ih => exact ih
  | _ =>
    intro z hz
    cases List.mem_singleton.mp hz
    rfl

section

variable {R : Type} {p : Personality R}

/-- **The first single operation that calls for an answer** gives it. -/
theorem respond_eq (p : Personality R) (x : Operation) :
    x.respond p = x.singles.findSome? (·.respond p) := by
  induction x with
  | repeated n x ih => exact ih
  | compound x y ihx ihy =>
    rw [respond, singles, List.findSome?_append, ← ihx, ← ihy]
    cases x.respond p <;> rfl
  | persist x ih => exact ih
  | _ => simp [singles, List.findSome?_singleton]

/-- Which single operations call for an answer, and for which. -/
theorem respond_single {z y : Operation} (hz : z.isSingle = true) :
    z.respond p = some y ↔ (∃ i r, z = .add i r ∧ i.name ∈ p.refused ∧ y = .remove i) ∨
      ∃ i, z = .checkFor i ∧ y = if (p.stock i.name).isPositive then .ensure i else .negate := by
  cases z with
  | add i r =>
    simp only [respond, add.injEq, reduceCtorEq, false_and, exists_false, or_false]
    constructor
    · intro h
      split at h
      · cases h
        exact ⟨i, r, ⟨rfl, rfl⟩, ‹_›, rfl⟩
      · cases h
    · rintro ⟨_, _, ⟨rfl, rfl⟩, hrefused, rfl⟩
      rw [if_pos hrefused]
  | checkFor i =>
    simp only [respond, Option.some.injEq, checkFor.injEq, reduceCtorEq, false_and, exists_false,
      false_or]
    constructor
    · intro h
      exact ⟨i, rfl, h.symm⟩
    · rintro ⟨_, hi, hy⟩
      rw [hy, hi]
  | repeated | compound | persist => cases hz
  | _ => simp [respond]

/-- **Who calls for no answer**: neither a question nor an ingredient that was refused. -/
theorem respond_none {x : Operation} : x.respond p = none ↔
    (∀ i, .checkFor i ∉ x.singles) ∧ ∀ i r, .add i r ∈ x.singles → i.name ∉ p.refused := by
  rw [respond_eq, List.findSome?_eq_none_iff]
  constructor
  · intro h
    refine ⟨fun i hi => ?_, fun i r hi hrefused => ?_⟩
    · have hnone := h _ hi
      cases hnone
    · have hnone := h _ hi
      rw [respond, if_pos hrefused] at hnone
      cases hnone
  · rintro ⟨hchecks, hadds⟩ z hz
    refine Option.eq_none_iff_forall_ne_some.mpr fun y hy => ?_
    rcases (respond_single (isSingle_of_mem hz)).mp hy with
      ⟨i, r, rfl, hrefused, -⟩ | ⟨i, rfl, -⟩
    · exact hadds i r hz hrefused
    · exact hchecks i hz

/-- Where an answer comes from. -/
theorem respond_some {x y : Operation} (h : x.respond p = some y) :
    (∃ i r, .add i r ∈ x.singles ∧ i.name ∈ p.refused ∧ y = .remove i) ∨
      ∃ i, .checkFor i ∈ x.singles ∧
        y = if (p.stock i.name).isPositive then .ensure i else .negate := by
  rw [respond_eq] at h
  obtain ⟨z, hz, hy⟩ := List.exists_of_findSome?_eq_some h
  rcases (respond_single (isSingle_of_mem hz)).mp hy with ⟨i, r, rfl, hrefused⟩ | ⟨i, rfl, hanswer⟩
  · exact Or.inl ⟨i, r, hz, hrefused⟩
  · exact Or.inr ⟨i, hz, hanswer⟩

/-- **The first of what was refused** is taken back, where there is no question. -/
theorem exists_refused {x : Operation} (hchecks : ∀ i, .checkFor i ∉ x.singles) {y : Operation}
    (h : x.respond p = some y) : ∃ before i r after, x.singles = before ++ .add i r :: after ∧
      i.name ∈ p.refused ∧ (∀ j r', .add j r' ∈ before → j.name ∉ p.refused) ∧
        y = .remove i := by
  rw [respond_eq] at h
  obtain ⟨before, z, after, hsplit, hy, hbefore⟩ := List.findSome?_eq_some_iff.mp h
  have hz : z ∈ x.singles := by simp [hsplit]
  rcases (respond_single (isSingle_of_mem hz)).mp hy with
    ⟨i, r, rfl, hrefused, rfl⟩ | ⟨i, rfl, -⟩
  · refine ⟨before, i, r, after, hsplit, hrefused, fun j r' hj hrefused' => ?_, rfl⟩
    have hnone := hbefore _ hj
    rw [respond, if_pos hrefused'] at hnone
    cases hnone
  · exact absurd hz (hchecks i)

end

/-- **Whatever happens while an operation is applied** happens while one of its single operations
is. -/
theorem exists_single {R : Type} [Scalar R] {event : Incident} : ∀ {x : Operation}
    {sp : Sandwich × Personality R}, event ∈ x.incidents sp →
      ∃ z ∈ x.singles, ∃ sp' : Sandwich × Personality R, event ∈ z.incidents sp' := by
  intro x
  induction x with
  | repeated n x ih =>
    intro sp h
    obtain ⟨k, -, hk⟩ := List.mem_flatMap.mp h
    exact ih hk
  | compound x y ihx ihy =>
    intro sp h
    rcases List.mem_append.mp h with h | h
    · obtain ⟨z, hz, hevent⟩ := ihx h
      exact ⟨z, List.mem_append_left _ hz, hevent⟩
    · obtain ⟨z, hz, hevent⟩ := ihy h
      exact ⟨z, List.mem_append_right _ hz, hevent⟩
  | persist x ih => exact ih
  | _ =>
    intro sp h
    exact ⟨_, List.mem_singleton_self _, sp, h⟩

/-- **Whatever happens while an operation is applied**, it meant to add what is put on or lacked, and
to take off what is taken off. -/
theorem meant_of_mem_incidents {R : Type} [Scalar R] {event : Incident} {x : Operation}
    {sp : Sandwich × Personality R} (h : event ∈ x.incidents sp) :
    (∃ i r, .add i r ∈ x.singles ∧ (event = .put i.name ∨ event = .lacked i.name)) ∨
      ∃ i, (.remove i ∈ x.singles ∨ .removeAll i ∈ x.singles) ∧ event = .tookOff i.name := by
  obtain ⟨z, hz, sp', h⟩ := exists_single h
  cases z with
  | add i r =>
    unfold incidents at h
    split at h
    · cases h
    · refine Or.inl ⟨i, r, hz, ?_⟩
      split at h
      · exact Or.inl (List.mem_singleton.mp h)
      · exact Or.inr (List.mem_singleton.mp h)
  | remove i =>
    unfold incidents at h
    split at h
    · exact Or.inr ⟨i, Or.inl hz, List.mem_singleton.mp h⟩
    · cases h
  | removeAll i => exact Or.inr ⟨i, Or.inr hz, (List.mem_replicate.mp h).2⟩
  | repeated | compound | persist => cases isSingle_of_mem hz
  | _ => cases h

/-- What is lacked while an operation is applied, it meant to add. -/
theorem mem_singles_of_lacked {R : Type} [Scalar R] {name : String} {x : Operation}
    {sp : Sandwich × Personality R} (h : .lacked name ∈ x.incidents sp) :
    ∃ i r, .add i r ∈ x.singles ∧ i.name = name := by
  rcases meant_of_mem_incidents h with ⟨i, r, hi, hput | hlacked⟩ | ⟨i, -, htook⟩
  · cases hput
  · cases hlacked
    exact ⟨i, r, hi, rfl⟩
  · cases htook

end Operation

/-! ## 2. Truthful answers -/

/-- What the answer to an operation says of a turn in which some things happened, the last of them
while the operation itself was applied, and of the machine afterwards. -/
structure Truthful {R : Type} (x : Operation) (events own : List Incident) (p : Personality R)
    (answer : Option Operation) : Prop where
  /-- What is taken back was asked for, was lacked, and is out of stock. -/
  removal (i : Ingredient) : answer = some (.remove i) →
    (∃ r, .add i r ∈ x.singles) ∧ .lacked i.name ∈ events ∧ (p.stock i.name).isPositive = false
  /-- What is promised was asked after and is in stock. -/
  promise (i : Ingredient) : answer = some (.ensure i) →
    .checkFor i ∈ x.singles ∧ (p.stock i.name).isPositive = true
  /-- A no means that something asked after is out of stock. -/
  denial : answer = some .negate →
    ∃ i, .checkFor i ∈ x.singles ∧ (p.stock i.name).isPositive = false
  /-- There are no other answers. -/
  kinds (y : Operation) : answer = some y → (∃ i, y = .remove i ∨ y = .ensure i) ∨ y = .negate
  /-- There is no answer when nothing was asked after and nothing to be added was lacked. -/
  silence : answer = none ↔ (∀ i, .checkFor i ∉ x.singles) ∧
    ∀ i r, .add i r ∈ x.singles → .lacked i.name ∉ events
  /-- Where nothing was asked after and something of the operation was lacked, the first ingredient
  to be added that was lacked is taken back. -/
  refusal (name : String) : (∀ i, .checkFor i ∉ x.singles) → .lacked name ∈ own →
    ∃ before i r after, x.singles = before ++ .add i r :: after ∧ .lacked i.name ∈ events ∧
      (∀ j r', .add j r' ∈ before → .lacked j.name ∉ events) ∧ answer = some (.remove i)

/-- **An answer is truthful** if what is refused is what was lacked, and it still lacks. -/
theorem Operation.truthful_respond {R : Type} {x : Operation} {events own : List Incident}
    {p : Personality R} (hrefused : ∀ name, name ∈ p.refused ↔ .lacked name ∈ events)
    (hlacked : ∀ name, .lacked name ∈ events → (p.stock name).isPositive = false)
    (hown : ∀ name, .lacked name ∈ own →
      .lacked name ∈ events ∧ ∃ i r, .add i r ∈ x.singles ∧ i.name = name) :
    Truthful x events own p (x.respond p) where
  removal i h := by
    rcases respond_some h with ⟨j, r, hj, hmem, hy⟩ | ⟨j, -, hy⟩
    · cases hy
      exact ⟨⟨r, hj⟩, (hrefused _).mp hmem, hlacked _ ((hrefused _).mp hmem)⟩
    · split at hy <;> cases hy
  promise i h := by
    rcases respond_some h with ⟨j, r, -, -, hy⟩ | ⟨j, hj, hy⟩
    · cases hy
    · split at hy
      · cases hy
        exact ⟨hj, ‹_›⟩
      · cases hy
  denial h := by
    rcases respond_some h with ⟨j, r, -, -, hy⟩ | ⟨j, hj, hy⟩
    · cases hy
    · split at hy
      · cases hy
      · exact ⟨j, hj, Bool.eq_false_iff.mpr ‹_›⟩
  kinds y h := by
    rcases respond_some h with ⟨j, r, -, -, rfl⟩ | ⟨j, -, rfl⟩
    · exact Or.inl ⟨j, Or.inl rfl⟩
    · split
      · exact Or.inl ⟨j, Or.inr rfl⟩
      · exact Or.inr rfl
  silence := by
    rw [respond_none]
    simp only [hrefused]
  refusal name hchecks h := by
    obtain ⟨hevent, i, r, hi, rfl⟩ := hown name h
    have hanswer : x.respond p ≠ none := fun hnone =>
      (respond_none.mp hnone).2 i r hi ((hrefused _).mpr hevent)
    obtain ⟨y, hy⟩ := Option.ne_none_iff_exists'.mp hanswer
    obtain ⟨before, j, r', after, hsplit, hmem, hfirst, rfl⟩ := exists_refused hchecks hy
    exact ⟨before, j, r', after, hsplit, (hrefused _).mp hmem,
      fun k s hk hlack => hfirst k s hk ((hrefused _).mpr hlack), hy⟩

/-! ## 3. A turn of the server -/

namespace Order

open Act

variable {R : Type} [Scalar R]

/-- The answer at the end of a turn is truthful. -/
theorem truthful_of_serve {heard : Operation} {skills : Language R} {lex : List LexedWord}
    {s s' : Sandwich} {t t' : Table R} {answer : Option Operation}
    (h : (serve heard skills lex s).perform t = (.ok (s', answer), t')) :
    Truthful (t.heeds heard) (t.incidents heard s) ((t.heeds heard).incidents (t.primed s))
      t'.mind.personality answer := by
  obtain ⟨-, rfl, l, r, hp⟩ := serve_ok h
  have haccounts := t.accounts heard s
  refine Operation.truthful_respond (fun name => ?_) (fun name hlack => ?_) fun name hlack => ?_
  · rw [hp]
    show name ∈ (t.edited heard s).2.refused ↔ _
    rw [haccounts.refused]
    exact or_iff_right List.not_mem_nil
  · rw [hp]
    exact haccounts.lacked name hlack
  · exact ⟨List.mem_append_right _ hlack, Operation.mem_singles_of_lacked hlack⟩

/-- **The server's answers are true, and refusals are never silent**, whatever is in force, whatever
is on the sandwich and whatever is served. This takes counters that have logarithms; with any other
the turn does not come to an answer. -/
theorem serve_answers (heard : Operation) (skills : Language R) (lex : List LexedWord)
    (s : Sandwich) (t : Table R) :
    ((∀ k ∉ skills.used, t.mind.personality.Fades k) →
      ∃ s' answer t', (serve heard skills lex s).perform t = (.ok (s', answer), t') ∧
        Truthful (t.heeds heard) (t.incidents heard s) ((t.heeds heard).incidents (t.primed s))
          t'.mind.personality answer) ∧
    ((∃ k ∉ skills.used, ¬ t.mind.personality.Fades k) →
      ∃ e t', (serve heard skills lex s).perform t = (.error e, t')) := by
  have hidle := t.idleTurns_edited heard s
  have hfades : ∀ k ∉ skills.used, ((t.edited heard s).2.upgrade skills).Fades k ↔
      t.mind.personality.Fades k := by
    intro k hk
    rw [Personality.fades_upgrade hk]
    unfold Personality.Fades Personality.idleFor
    rw [hidle]
  have hserve := perform_serve heard skills lex s t
  obtain ⟨l, r, -, ⟨hall, hfade⟩ | ⟨k, hk, hnot, hfade⟩⟩ :=
    Personality.fade_spec skills.used ((t.edited heard s).2.upgrade skills)
  · rw [hfade] at hserve
    refine ⟨fun _ => ⟨_, _, _, hserve, truthful_of_serve hserve⟩, ?_⟩
    rintro ⟨k, hk, hnot⟩
    exact absurd ((hfades k hk).mp (hall k hk)) hnot
  · rw [hfade] at hserve
    refine ⟨fun hall => ?_, fun _ => ⟨_, _, hserve⟩⟩
    exact absurd ((hfades k hk).mpr (hall k hk)) hnot

namespace House

/-- Some ham. -/
def ham : Ingredient := ⟨"ham", "ha", none⟩

/-- A server without spite and with nothing in its pantry. -/
noncomputable def bare : Table ℝ :=
  ⟨{}, { Personality.standard with spite := 0 }, .scripted (fun _ => 0) 0⟩

/-- Where there is no ham, somebody who wants some is told so. -/
theorem serve_answers_ham : ∃ s' t', (serve (.add ham .top) .unused [] {}).perform bare =
    (.ok (s', some (.remove ham)), t') := by
  have hkind : bare.spiteful = false :=
    Table.not_spiteful rfl fun _ => ⟨le_refl 0, zero_lt_one⟩
  have hlacked : (Operation.add ham .top).incidents (bare.primed {}) = [.lacked "ham"] := by
    rw [Table.primed_of_kind hkind]
    decide +kernel
  obtain ⟨s', answer, t', hserve, htruthful⟩ :=
    (serve_answers (.add ham .top) .unused [] {} bare).1 fun k _ => by
      refine ⟨rfl, ?_⟩
      show (0 : Int) < 1 + (0 + 1)
      decide
  rw [Table.heeds_of_kind hkind, hlacked] at htruthful
  obtain ⟨before, i, r, after, hsplit, -, -, rfl⟩ :=
    htruthful.refusal "ham" (fun i hi => by cases List.mem_singleton.mp hi) (by simp)
  have hi : i = ham := by
    cases before with
    | nil =>
      cases hsplit
      rfl
    | cons z rest => simp [Operation.singles] at hsplit
  subst hi
  exact ⟨s', t', hserve⟩

end House

end Order

end DeliTalk
