import DeliTalk.Order
import DeliTalk.Taxonomy.Dream

/-!
# The sandwich a customer dreams of

Lazier machines want less. Favorites may be planned in, allergens stay out.
-/

namespace DeliTalk.Order

variable {R : Type} [Scalar R]

/-- How many fillings a machine wants. What lies between the bounds may be too large for a
scalar. -/
def fillingsFor (p : Personality R) (least most : Int) : Except Fault Int :=
  let span : R := Scalar.ofInt (max 0 (most - least))
  if Scalar.isFinite span then .ok (least + Scalar.nearest 0 ((1.0 - p.laziness) * span))
  else .error .oversized

/-- The favorites that are planned in. -/
def rollPlanned (p : Personality R) : List (Preference R) → Luck R (List Ingredient)
  | [] => return []
  | f :: rest => do
    let planned ← roll (p.planned * f.severity)
    let more ← rollPlanned p rest
    return if planned then f.ingredient :: more else more

/-- The sandwich a machine would like to have. -/
def dream (t : Taxonomy) (p : Personality R) (least most : Int) : Luck R Sandwich := do
  let fillings ← Act.ofExcept (fillingsFor p least most)
  let planned ← rollPlanned p p.favorites
  t.randomSandwich fillings (p.allergies.map (·.ingredient)) planned

end DeliTalk.Order
