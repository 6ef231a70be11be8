import DeliTalk.Learning
import DeliTalk.Taxonomy

/-!
# Newborn machines, and machines that come back

A newborn machine has random dispositions, a like and perhaps a dislike, and a full pantry. A
machine that was saved comes back as it was; where there is nothing usable, one is born.
-/

namespace DeliTalk.Personality

variable {R : Type} [Scalar R]

/-- A scalar rounded to three places; its sign stays. -/
def rounded (x : R) : R :=
  if !Scalar.isFinite x || Scalar.same x 0.0 then x
  else if x < 0.0 then Scalar.ofInt (-1) * thousandths (Scalar.ofInt (-1) * x)
  else thousandths x
where
  /-- A scalar that is not negative, rounded to three places. -/
  thousandths (x : R) : R := Scalar.ofInt (Scalar.nearest 3 x) / 1000.0

/-- A draw rounded to three places. -/
def drawRounded : Luck R R := do return rounded (← drawOne)

/-- The preferences that come of the first of some ingredients. -/
def preferenceFor : List Ingredient → Luck R (List (Preference R))
  | [] => return []
  | i :: _ => do
    let severity ← Act.ofCheck ((Doc.checkShare (← drawRounded)).under (.field "severity"))
    return [⟨i, severity⟩]

/-- Dislikes: now and then the second of some ingredients. -/
def dislikeAmong : List Ingredient → Luck R (List (Preference R))
  | _ :: second :: _ => do
    let x ← drawOne
    if x < 0.5 then preferenceFor [second] else return []
  | _ => return []

/-- The standard machine with dispositions of its own, which have to be shares. -/
def withDispositions (laziness forgetfulness politeness shyness spite planned spontaneity
    orderSensitivity : R) : Check (Personality R) :=
  let share (name : String) (x : R) : Check R := (Doc.checkShare x).under (.field name)
  (fun laziness forgetfulness politeness shyness spite planned spontaneity orderSensitivity =>
      { (standard : Personality R) with
        laziness := laziness
        forgetfulness := forgetfulness
        politeness := politeness
        shyness := shyness
        spite := spite
        planned := planned
        spontaneity := spontaneity
        orderSensitivity := orderSensitivity })
    <$> share "laziness" laziness <*> share "forgetfulness" forgetfulness
    <*> share "politeness" politeness <*> share "shyness" shyness <*> share "spite" spite
    <*> share "planned" planned <*> share "spontaneity" spontaneity
    <*> share "order_sensitivity" orderSensitivity

/-- The number of ingredients a newborn has feelings about at most. -/
def pickLimit : Nat := 3

/-- A newborn machine. -/
def newborn (t : Taxonomy) (stock : Int) : Luck R (Personality R) := do
  let laziness ← drawRounded
  let forgetfulness ← drawRounded
  let politeness ← drawRounded
  let shyness ← drawRounded
  let spite ← drawRounded
  let planned ← drawRounded
  let spontaneity ← drawRounded
  let orderSensitivity ← drawRounded
  let p ← Act.ofCheck (withDispositions laziness forgetfulness politeness shyness spite planned
    spontaneity orderSensitivity)
  let picks ← sampleDistinct (min t.fillings.length pickLimit) t.fillings
  let favorites ← preferenceFor picks
  let allergies ← dislikeAmong picks
  return { p with favorites := favorites, allergies := allergies }.restock t.leafNames stock

end DeliTalk.Personality
