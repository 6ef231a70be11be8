import DeliTalk.Proofs.Ending
import Mathlib.Data.List.Forall2
import DeliTalk.Sentence.Comprehension

/-!
# What a listener hears

A clause whose nouns are known comes down to a gist: the ingredient and what is done to it, and
the constructs around it. What is heard of a gist depends on the listener only through the rolls
that succeed. This file says which roll decides about which construct.

* `Chance.after`: the source after so many draws.
* `Language.catches`: the outcomes of the coming rolls of a listener.
* `Gist.heard`, `Gist.heardChain`: what is heard, as a function of the outcomes.
* `Gist.rolls`, `Outcomes.Succeed`: the skills that are tried, and that all of them succeed.
* `Clause.perform_understand`, `Clause.perform_understandChain`: the listener hears exactly that,
  and draws once for each construct.
-/

namespace DeliTalk

variable {R : Type} [Scalar R]

/-! ## 1. Draws -/

namespace Chance

/-- The source after so many draws. -/
def after : Nat → Chance R → Chance R
  | 0, c => c
  | n + 1, c => after n c.draw.2

@[simp] theorem after_zero (c : Chance R) : after 0 c = c := rfl

theorem after_succ (n : Nat) (c : Chance R) : after (n + 1) c = after n c.draw.2 := rfl

theorem after_add : ∀ (m n : Nat) (c : Chance R), after (m + n) c = after n (after m c)
  | 0, n, c => by simp
  | m + 1, n, c => by
    rw [Nat.add_right_comm]
    exact after_add m n c.draw.2

theorem draw_after (n : Nat) (c : Chance R) : (after n c).draw.2 = after (n + 1) c := by
  rw [after_add n 1 c]
  rfl

/-- The draws of a script are counted. -/
theorem after_scripted (draws : Nat → R) : ∀ n used : Nat,
    after n (scripted draws used) = scripted draws (used + n)
  | 0, used => rfl
  | n + 1, used => by
    rw [after_succ]
    simp only [draw]
    rw [after_scripted draws n (used + 1), Nat.add_assoc, Nat.add_comm 1 n]

end Chance

/-- The outcomes of rolls: by how many draws came before, and by the skill that is tried. -/
abbrev Outcomes := Nat → Skill → Bool

/-- The outcomes of the coming rolls of a listener. -/
def Language.catches (skills : Language R) (c : Chance R) : Outcomes := fun k s =>
  decide ((c.after k).draw.1 < skills.get s)

/-- The outcomes after some draws. -/
def Outcomes.later (ear : Outcomes) (n : Nat) : Outcomes := fun k s => ear (n + k) s

theorem Language.catches_after (skills : Language R) (c : Chance R) (n : Nat) :
    skills.catches (c.after n) = (skills.catches c).later n := by
  funext k s
  simp only [catches, Outcomes.later, Chance.after_add]

theorem perform_roll (skills : Language R) (s : Skill) (c : Chance R) (n : Nat) :
    (roll (skills.get s)).perform (c.after n) = (.ok (skills.catches c n s), c.after (n + 1)) := by
  rw [← Chance.draw_after]
  rfl

/-! ## 2. Gists -/

/-- A clause whose nouns are known: what is done to the ingredient, the place it is to go to, and
the adverbs and the number around it. -/
structure Gist where
  count : Option Nat
  adverbs : List Adverb
  place : Option Relative
  core : Operation

namespace Gist

/-- The draws for the place. -/
def placeDraws (g : Gist) : Nat := if g.place.isSome then 1 else 0

/-- The draws for all constructs of a clause. -/
def draws (g : Gist) : Nat :=
  g.placeDraws + g.adverbs.length + if g.count.isSome then 1 else 0

/-- What is heard of the ingredient and its place. -/
def heardPlaced (g : Gist) (ear : Outcomes) : Understood R :=
  match g.place, g.core with
  | some place, .add i _ =>
    if ear 0 .adposition then (.add i place, .unused + .once .adposition) else (g.core, .unused)
  | _, _ => (g.core, .unused)

/-- What is heard of the adverbs around something, the innermost first. -/
def heardAdverbs (ear : Outcomes) (inner : Understood R) : List Adverb → Understood R
  | [] => inner
  | a :: rest =>
    let (x, used) := heardAdverbs ear inner rest
    if ear rest.length .adverbs then (a.modify x, used + .once .adverbs) else (x, used)

/-- What is heard of a clause. -/
def heard (g : Gist) (ear : Outcomes) : Understood R :=
  let (x, used) := heardAdverbs (ear.later g.placeDraws) (g.heardPlaced ear) g.adverbs
  match g.count with
  | none => (x, used)
  | some n =>
    if ear (g.placeDraws + g.adverbs.length) .numbers then (.repeated n x, used + .once .numbers)
    else (x, used)

/-- The draws for a chain of clauses: those of the clauses, and one for each conjunction. -/
def chainDraws : Gist → List Gist → Nat
  | g, [] => g.draws
  | g, h :: more => g.draws + chainDraws h more + 1

/-- What is heard of a chain of clauses. Where a conjunction is missed, only what follows it
sticks. -/
def heardChain (ear : Outcomes) : Gist → List Gist → Understood R
  | g, [] => g.heard ear
  | g, h :: more =>
    let (x, used) := g.heard ear
    let (y, usedLater) := heardChain (ear.later g.draws) h more
    if ear (g.draws + chainDraws h more) .conjunction then
      (.compound x y, used + usedLater + .once .conjunction)
    else (y, usedLater)

/-! ### One more construct -/

theorem heard_adverb {g : Gist} (h : g.count = none) (a : Adverb) (ear : Outcomes) :
    ({ g with adverbs := a :: g.adverbs }.heard ear : Understood R) =
      if ear g.draws .adverbs then
        (a.modify (g.heard ear : Understood R).1, (g.heard ear).2 + .once .adverbs)
      else g.heard ear := by
  simp only [heard, h, draws, Option.isSome_none, Bool.false_eq_true, if_false, Nat.add_zero]
  rfl

theorem heard_count {g : Gist} (h : g.count = none) (n : Nat) (ear : Outcomes) :
    ({ g with count := some n }.heard ear : Understood R) =
      if ear g.draws .numbers then
        (.repeated n (g.heard ear : Understood R).1, (g.heard ear).2 + .once .numbers)
      else g.heard ear := by
  simp only [heard, h, draws, Option.isSome_none, Bool.false_eq_true, if_false, Nat.add_zero]
  rfl

/-! ### The rolls -/

/-- The skills that are tried for a clause, one after the other. -/
def rolls (g : Gist) : List Skill :=
  (if g.place.isSome then [.adposition] else []) ++
    List.replicate g.adverbs.length .adverbs ++ if g.count.isSome then [.numbers] else []

/-- The skills that are tried for a chain of clauses. -/
def chainRolls : Gist → List Gist → List Skill
  | g, [] => g.rolls
  | g, h :: more => g.rolls ++ chainRolls h more ++ [.conjunction]

theorem length_rolls (g : Gist) : g.rolls.length = g.draws := by
  unfold rolls draws placeDraws
  rw [List.length_append, List.length_append, List.length_replicate]
  cases g.place <;> cases g.count <;> rfl

theorem length_chainRolls : ∀ (g : Gist) (gs : List Gist),
    (chainRolls g gs).length = chainDraws g gs
  | g, [] => g.length_rolls
  | g, h :: more => by
    rw [chainRolls, List.length_append, List.length_append, g.length_rolls,
      length_chainRolls h more]
    rfl

theorem rolls_adverb {g : Gist} (h : g.count = none) (a : Adverb) :
    { g with adverbs := a :: g.adverbs }.rolls = g.rolls ++ [.adverbs] := by
  simp [rolls, h, List.replicate_succ']

theorem rolls_count {g : Gist} (h : g.count = none) (n : Nat) :
    { g with count := some n }.rolls = g.rolls ++ [.numbers] := by
  simp [rolls, h]

end Gist

/-- Whether the coming rolls, of the given skills, all succeed. -/
def Outcomes.Succeed (ear : Outcomes) (rolls : List Skill) : Prop :=
  ∀ k s, rolls[k]? = some s → ear k s = true

namespace Outcomes.Succeed

variable {ear : Outcomes} {rolls more : List Skill} {s : Skill}

theorem left (h : ear.Succeed (rolls ++ more)) : ear.Succeed rolls := by
  intro k s hs
  refine h k s ?_
  rw [List.getElem?_append_left (List.getElem?_eq_some_iff.mp hs).1, hs]

theorem right (h : ear.Succeed (rolls ++ more)) : (ear.later rolls.length).Succeed more := by
  intro k s hs
  refine h (rolls.length + k) s ?_
  rw [List.getElem?_append_right (Nat.le_add_right _ _), Nat.add_sub_cancel_left, hs]

theorem last (h : ear.Succeed (rolls ++ [s])) : ear rolls.length s = true :=
  h rolls.length s (by simp)

end Outcomes.Succeed

/-! ## 3. Clauses with a gist -/

namespace Clause

/-- Whether a clause has a gist: its nouns are known, and its verb has an operation. The place
counts only for something to be added. -/
structure Means (t : Taxonomy) (c : Clause) (g : Gist) : Prop where
  count : g.count = c.count
  adverbs : g.adverbs = c.adverbs
  core : c.core t = .ok g.core
  place : match c.placement, g.core with
    | some (anchor, side), .add _ _ =>
      ∃ a, t.referent anchor = .ok a ∧ g.place = some (side.relative a)
    | _, _ => g.place = none

/-- The core of a clause adds or confirms an ingredient. -/
theorem core_cases {t : Taxonomy} {c : Clause} {x : Operation} (h : c.core t = .ok x) :
    ∃ i, t.referent c.noun = .ok i ∧
      (c.verb.usage? = some .desire ∧ x = .add i .top ∨
        c.verb.usage? = some .possession ∧ x = .ensure i) := by
  unfold core at h
  split at h
  · cases h
  · rename_i i hi
    refine ⟨i, hi, ?_⟩
    split at h
    · rename_i hu
      cases h
      exact Or.inl ⟨hu, rfl⟩
    · rename_i hu
      cases h
      exact Or.inr ⟨hu, rfl⟩
    · cases h

/-- A clause with known nouns has a gist, unless its verb has no operation. -/
theorem means_of_core {t : Taxonomy} {c : Clause} {x : Operation} (h : c.core t = .ok x)
    (ha : ∀ anchor side, c.placement = some (anchor, side) → ∃ a, t.referent anchor = .ok a) :
    ∃ g, c.Means t g := by
  obtain ⟨i, -, ⟨-, rfl⟩ | ⟨-, rfl⟩⟩ := core_cases h
  · cases hp : c.placement with
    | none => exact ⟨⟨c.count, c.adverbs, none, _⟩, rfl, rfl, h, by rw [hp]⟩
    | some p =>
      obtain ⟨anchor, side⟩ := p
      obtain ⟨a, hr⟩ := ha anchor side hp
      exact ⟨⟨c.count, c.adverbs, some (side.relative a), _⟩, rfl, rfl, h, by
        rw [hp]
        exact ⟨a, hr, rfl⟩⟩
  · refine ⟨⟨c.count, c.adverbs, none, _⟩, rfl, rfl, h, ?_⟩
    cases c.placement <;> rfl

variable {t : Taxonomy} {c : Clause} {g : Gist} (skills : Language R) (chance : Chance R)

theorem perform_understandPlaced (h : c.Means t g) :
    (c.understandPlaced t skills).perform chance =
      (.ok (g.heardPlaced (skills.catches chance)), chance.after g.placeDraws) := by
  have hplace := h.place
  have hroll := perform_roll skills .adposition chance 0
  unfold understandPlaced Gist.heardPlaced Gist.placeDraws
  simp only [Act.perform_bind, Act.perform_ofExcept, h.core]
  obtain ⟨i, -, ⟨-, hx⟩ | ⟨-, hx⟩⟩ := core_cases h.core
  · rw [hx] at hplace ⊢
    cases hp : c.placement with
    | none =>
      rw [hp] at hplace
      simp only at hplace
      simp [hplace]
    | some p =>
      obtain ⟨anchor, side⟩ := p
      rw [hp] at hplace
      obtain ⟨a, hr, hg⟩ := hplace
      simp only [Chance.after_zero] at hroll
      simp only [Act.perform_bind, Language.get] at hroll ⊢
      rw [hroll, hg]
      by_cases hc : skills.catches chance 0 .adposition <;> simp [hc, hr, Except.map]
  · rw [hx] at hplace ⊢
    have hg : g.place = none := by
      cases hp : c.placement <;> rw [hp] at hplace <;> exact hplace
    cases c.placement <;> simp [hg]

/-- Adverbs around something are heard from the innermost outwards. -/
theorem perform_understandAdverbs {inner : Luck R (Understood R)} {u : Understood R} {n : Nat}
    (h : inner.perform chance = (.ok u, chance.after n)) : ∀ adverbs : List Adverb,
    (understandAdverbs skills inner adverbs).perform chance =
      (.ok (Gist.heardAdverbs ((skills.catches chance).later n) u adverbs),
        chance.after (n + adverbs.length))
  | [] => h
  | a :: rest => by
    have hrest := perform_understandAdverbs h rest
    have hroll := perform_roll skills .adverbs chance (n + rest.length)
    unfold understandAdverbs Gist.heardAdverbs
    simp only [Act.perform_bind, Language.get] at hroll ⊢
    rw [hrest]
    simp only [Outcomes.later]
    rw [hroll]
    by_cases hc : skills.catches chance (n + rest.length) .adverbs <;> simp only [hc] <;> rfl

/-- **A clause is heard as its gist says**, with one draw for each construct. -/
theorem perform_understand (h : c.Means t g) :
    (c.understand t skills).perform chance =
      (.ok (g.heard (skills.catches chance)), chance.after g.draws) := by
  have hadverbs := perform_understandAdverbs skills chance
    (perform_understandPlaced skills chance h) c.adverbs
  have hroll := perform_roll skills .numbers chance (g.placeDraws + g.adverbs.length)
  unfold understand Gist.heard Gist.draws
  rw [Act.perform_bind, hadverbs, ← h.adverbs]
  rw [← h.count]
  cases g.count with
  | none => rfl
  | some n =>
    simp only [Act.perform_bind, Language.get] at hroll ⊢
    rw [hroll]
    by_cases hc : skills.catches chance (g.placeDraws + g.adverbs.length) .numbers <;>
      simp only [hc] <;> rfl

/-- **A chain of clauses is heard as its gists say.** -/
theorem perform_understandChain (rest : List Tagged) : ∀ {c : Clause} {more : List Clause}
    {g : Gist} {gs : List Gist} (chance : Chance R), c.Means t g → List.Forall₂ (Means t) more gs →
    (understandChain t skills (.rest rest) c more).perform chance =
      (.ok (Gist.heardChain (skills.catches chance) g gs), chance.after (Gist.chainDraws g gs))
  | c, [], g, [], chance, h, .nil => by
    unfold understandChain
    rw [Act.perform_bind, perform_understand skills chance h]
    rfl
  | c, d :: more, g, k :: gs, chance, h, .cons hd hs => by
    have hlater := perform_understandChain rest (chance.after g.draws) hd hs
    rw [Language.catches_after, ← Chance.after_add] at hlater
    have hroll := perform_roll skills .conjunction chance (g.draws + Gist.chainDraws k gs)
    unfold understandChain Gist.heardChain
    rw [Act.perform_bind, perform_understand skills chance h]
    simp only [Act.perform_bind, Language.get] at hroll ⊢
    rw [hlater]
    simp only
    rw [hroll]
    by_cases hc : skills.catches chance (g.draws + Gist.chainDraws k gs) .conjunction <;>
      simp only [hc] <;> rfl

end Clause

end DeliTalk
