import DeliTalk.Chance
import DeliTalk.Sandwich
import DeliTalk.Taxonomy

/-!
# Dreaming up sandwiches

A random sandwich is a bread, fillings, and the top of that bread. Ingredients that have to be in
come first, then fillings are drawn until there are enough; a filling drawn again survives half
the time. What is excluded never gets in as a filling.
-/

namespace DeliTalk.Taxonomy

variable {R : Type} [Scalar R]

/-- A random filling. -/
def randomFilling (t : Taxonomy) : Luck R Ingredient :=
  if t.fillings.isEmpty then Act.fault (.menu .noFillings) else choose t.fillings

/-- A random bread. -/
def randomBread (t : Taxonomy) : Luck R Bread := choose t.breads

/-- Whether an ingredient falls under one of those excluded. -/
def isBanned (banned : List Ingredient) (i : Ingredient) : Bool := banned.any (·.includes i)

/-- The fillings that may be drawn. -/
def pool (t : Taxonomy) (banned : List Ingredient) : List Ingredient :=
  t.fillings.filter fun i => !isBanned banned i

/-- The front of a list; a negative count leaves that many out at the end. -/
def front {α : Type} (count : Int) (xs : List α) : List α :=
  if 0 ≤ count then xs.take count.toNat else xs.take (xs.length - count.natAbs)

/-- The ingredients that have to be in, as far as they are leaves and allowed. -/
def requiredFillings (required banned : List Ingredient) (fillings : Int) : List Ingredient :=
  front fillings
    ((required.filter fun i => i.isLeaf && !isBanned banned i).map (·.leaf))

/-- Draws fillings until there are enough or the attempts run out. -/
def fill (pool : List Ingredient) (fillings : Int) :
    (attempts : Nat) → List Ingredient → Luck R (List Ingredient)
  | 0, chosen => return chosen
  | attempts + 1, chosen => do
    if pool.isEmpty ∨ fillings ≤ (chosen.length : Int) then return chosen
    else
      let candidate ← choose pool
      if chosen.any (·.same candidate) then
        if ← roll 0.5 then fill pool fillings attempts (chosen ++ [candidate])
        else fill pool fillings attempts chosen
      else fill pool fillings attempts (chosen ++ [candidate])

/-- The attempts made per filling. -/
def attemptsPerFilling : Nat := 20

/-- A random sandwich with so many fillings. -/
def randomSandwich (t : Taxonomy) (fillings : Int) (banned required : List Ingredient) :
    Luck R Sandwich := do
  let (bottom, top) ← t.randomBread
  let chosen ← fill (t.pool banned) fillings (fillings.toNat * attemptsPerFilling)
    (requiredFillings required banned fillings)
  let middle ← shuffle chosen
  let background ← choose backgroundColors
  return { ingredients := bottom :: middle ++ [top], background := background }

end DeliTalk.Taxonomy
