import DeliTalk.Proofs.Caution
import DeliTalk.Proofs.Cravings

/-!
# Why a customer asks for what it asks for

Only the first two steps of the cascade say something special: having something taken off for good,
and putting something next to something else. Each says it about one thing, the first there is too
much of on the sandwich, or the first open wish that was passed by. Too much is counted name by
name, so the thing banned may well be something wanted, of which there is one too many.

* `Order.Motive`: the step of the cascade an operation comes from.
* `Order.pick_motive`: whatever is picked has a motive.
* `Order.ends_pick_ban`: what the bold and well-spoken ban, whatever the draws are.
* `Order.bans_surplus`: what may be banned, and when that is never something wanted.
-/

namespace DeliTalk

open Act

namespace Order

/-! ## 1. Motives -/

/-- Why a customer asks for something in view of a result: the step of the cascade it comes from,
and the order it is left with. How much of it is apt to be asked for is another question. -/
inductive Motive (o : Order) (result : Sandwich) : Operation → Order → Prop where
  /-- The first thing there is too much of is to be taken off. -/
  | surplus {i : Ingredient} (first : firstExtra? o.desired result = some i) :
      Motive o result (.remove i) o
  /-- The same, for good. -/
  | ban {i : Ingredient} (first : firstExtra? o.desired result = some i) :
      Motive o result (.persist (.remove i)) o
  /-- The first open wish before the next one is to go next to what is there. -/
  | mistake {suppressed : Ingredient → Bool} {ws : List Wish} {next k : Nat} {w : Wish}
      (byName : ∀ i j : Ingredient, i.name = j.name → suppressed i = suppressed j)
      (wishes : ws = Wish.listOf suppressed o.desired result)
      (first : (ws.take next).findIdx? (·.isOpen) = some k) (wish : ws[k]? = some w) :
      Motive o result (.add w.ingredient (placement ws k)) o
  /-- An allergen is to be taken off. -/
  | allergen {i : Ingredient} : Motive o result (.remove i) o
  /-- Something wanted is to go on top. -/
  | wish {i : Ingredient} {o' : Order} : Motive o result (.add i .top) o'
  /-- Several of something wanted are to go on top. -/
  | several {i : Ingredient} {n : Nat} {o' : Order} : Motive o result (.repeated n (.add i .top)) o'
  /-- Something wanted might not be available. -/
  | question {i : Ingredient} {o' : Order} : Motive o result (.checkFor i) o'

/-- What is asked for, if anything, has a motive. -/
def Motivated (o : Order) (result : Sandwich) (a : Option Operation) (o' : Order) : Prop :=
  ∀ x ∈ a, Motive o result x o'

variable {o o' : Order} {result : Sandwich}

/-! ## 2. The cascade -/

section Cascade

variable {R : Type}

/-- Whether something is avoided is a matter of its name. -/
theorem anyIncludes_congr (avoided : List (Preference R)) {i j : Ingredient}
    (h : i.name = j.name) : anyIncludes avoided i = anyIncludes avoided j := by
  unfold anyIncludes Ingredient.includes
  rw [h]

/-- Whichever step something comes from, it has a motive. -/
theorem Picked.motive {allergies : List (Preference R)} {x : Operation}
    (h : Picked allergies o result x o') : Motive o result x o' := by
  cases h with
  | removal h =>
    cases h with
    | once first => exact .surplus first
    | ban first => exact .ban first
  | @earlier avoided next x h =>
    cases h with
    | placed first wish =>
      exact .mistake (fun _ _ => anyIncludes_congr avoided) rfl first wish
    | top first wish => exact .wish
  | safety h =>
    cases h
    exact .allergen
  | onward h =>
    cases h with
    | question wanted wish unsettled => exact .question
    | several wanted wish run pos count => exact .several
    | one wanted wish => exact .wish

variable [Scalar R]

/-- **The cascade** asks for something only for a reason. -/
theorem ends_pick_motivated (result : Sandwich) (t : Table R) :
    Ends (pick result) t (fun a t' => (∀ x ∈ a, isMissing t.order.desired result = true) ∧
      Motivated t.order result a t'.order) fun _ _ => True :=
  (ends_pick_picked result t).imp fun _ _ h =>
    ⟨fun x hx => (h x hx).1, fun x hx => (h x hx).2.motive⟩

/-- Whatever a customer picks, something is missing, and it has a motive. -/
theorem pick_motive {t t' : Table R} {x : Operation}
    (h : (pick result).perform t = (.ok (some x), t')) :
    isMissing t.order.desired result = true ∧ Motive t.order result x t'.order := by
  have hends := ends_pick_motivated result t
  unfold Ends at hends
  rw [h] at hends
  exact ⟨hends.1 x rfl, hends.2 x rfl⟩

end Cascade

/-! ## 3. Bans -/

section Bans

variable {i : Ingredient}

theorem yields_askRemoval_ban {p : Personality ℝ} {desired : Sandwich}
    (hextra : firstExtra? desired result = some i) (hbold : p.shyness = 0)
    (hadverbs : 1 ≤ p.language.adverbs) :
    Yields (askRemoval p desired result) (· = some (.persist (.remove i))) := by
  unfold askRemoval
  rw [hextra]
  refine yields_bind (yields_rollShy_bold hbold) fun shy hshy => ?_
  subst hshy
  refine yields_bind (yields_roll_one hadverbs) fun adverb hadverb => ?_
  subst hadverb
  exact yields_pure rfl

/-- **The bold and well-spoken** ban the first thing there is too much of as long as something is
missing, whatever the draws are. -/
theorem ends_pick_ban {t : Table ℝ} (hc : t.mind.chance.Proper)
    (hmissing : isMissing t.order.desired result = true)
    (hextra : firstExtra? t.order.desired result = some i)
    (hbold : t.mind.personality.shyness = 0)
    (hadverbs : 1 ≤ t.mind.personality.language.adverbs) :
    Ends (pick result) t (fun a _ => a = some (.persist (.remove i))) never := by
  unfold pick
  rw [ends_bind, ends_get]
  simp only [hmissing, Bool.not_true, Bool.false_eq_true, if_false]
  rw [ends_bind]
  refine (Table.ends_lucky (yields_rollAvoided _) hc).imp fun avoided t₁ h₁ => ?_
  obtain ⟨-, c₁, hc₁, rfl⟩ := h₁
  rw [ends_bind]
  refine (Table.ends_lucky (yields_roll _) hc₁).imp fun forgot t₂ h₂ => ?_
  obtain ⟨-, c₂, hc₂, rfl⟩ := h₂
  unfold firstOf
  rw [ends_bind]
  refine (Table.ends_lucky (yields_askRemoval_ban hextra hbold hadverbs) hc₂).imp
    fun a t₃ h₃ => ?_
  rw [h₃.1]
  rfl

/-- **A ban** is for the first thing there is more of than wanted. It is never for something wanted,
whoever the customer is and whatever the draws are, exactly if there is nothing missing or that
thing is not wanted at all. -/
theorem bans_surplus (desired result : Sandwich) :
    (∀ (t t' : Table ℝ) (x : Operation), t.order.desired = desired →
      (pick result).perform t = (.ok (some (.persist x)), t') →
      ∃ i, x = .remove i ∧ firstExtra? desired result = some i ∧
        desired.count i.name < result.count i.name ∧ t'.order = t.order) ∧
    ((∀ (t t' : Table ℝ) (i : Ingredient), t.order.desired = desired →
        (pick result).perform t = (.ok (some (.persist (.remove i))), t') →
        desired.contains i = false) ↔
      (isMissing desired result = true → ∀ i, firstExtra? desired result = some i →
        desired.contains i = false)) := by
  have hban : ∀ (t t' : Table ℝ) (x : Operation), t.order.desired = desired →
      (pick result).perform t = (.ok (some (.persist x)), t') →
      isMissing desired result = true ∧ ∃ i, x = .remove i ∧
        firstExtra? desired result = some i ∧ t'.order = t.order := by
    intro t t' x hd h
    subst hd
    obtain ⟨hmissing, hmotive⟩ := pick_motive h
    generalize t'.order = o' at hmotive
    cases hmotive with
    | ban first => exact ⟨hmissing, _, rfl, first, rfl⟩
  refine ⟨fun t t' x hd h => ?_, fun hnever hmissing i hextra => ?_, fun h t t' i hd hperform => ?_⟩
  · obtain ⟨-, i, rfl, hextra, horder⟩ := hban t t' x hd h
    exact ⟨i, rfl, hextra, (firstExtra?_spec hextra).2, horder⟩
  · -- somebody bold and well-spoken bans it
    let t : Table ℝ := ⟨{ desired := desired }, House.customer, .scripted (fun _ => 0) 0⟩
    have hproper : t.mind.chance.Proper := fun _ => ⟨le_refl 0, zero_lt_one⟩
    obtain ⟨a, t', hperform, rfl⟩ :=
      (ends_pick_ban (t := t) hproper hmissing hextra rfl (le_refl 1)).exists
    exact hnever t t' i rfl hperform
  · obtain ⟨hmissing, j, hj, hextra, -⟩ := hban t t' _ hd hperform
    cases hj
    exact h hmissing i hextra

end Bans

namespace House

/-- A bread and a tomato. -/
def wantedBoth : Sandwich := { ingredients := [bread, tomato] }

/-- A bread too many and no tomato. -/
def gotTwo : Sandwich := { ingredients := [bread, bread] }

/-- Who gets a bread too many may ban bread, although bread is wanted. -/
theorem bans_bread : wantedBoth.contains bread = true ∧
    ∃ t t' : Table ℝ, t.order.desired = wantedBoth ∧
      (pick gotTwo).perform t = (.ok (some (.persist (.remove bread))), t') := by
  have hextra : firstExtra? wantedBoth gotTwo = some bread := rfl
  have hwanted : wantedBoth.contains bread = true := rfl
  obtain ⟨hban, hnever⟩ := bans_surplus wantedBoth gotTwo
  have hsometimes := mt hnever.mp fun h => Bool.eq_false_iff.mp (h rfl bread hextra) hwanted
  push Not at hsometimes
  obtain ⟨t, t', i, hd, hperform, -⟩ := hsometimes
  obtain ⟨j, hj, hfirst, -⟩ := hban t t' _ hd hperform
  cases hj
  cases hextra.symm.trans hfirst
  exact ⟨hwanted, t, t', hd, hperform⟩

end House

end Order

end DeliTalk
