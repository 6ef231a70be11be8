import DeliTalk.Ingredient

/-!
# Sandwiches

A sandwich is a value: its ingredients from the bottom up, the ingredients somebody has confirmed
to be available, whether it is finished, and a background colour. An ingredient can be placed on
top or next to another one.
-/

namespace DeliTalk

/-- Where an added ingredient goes. -/
inductive Position where
  | top | before | after
deriving Repr, DecidableEq, Inhabited

namespace Position

/-- The name of a position. -/
def name : Position → String
  | top => "top"
  | before => "before"
  | after => "after"

/-- The position of a name. -/
def ofName? (s : String) : Option Position := [top, before, after].find? (·.name == s)

theorem ofName?_name (p : Position) : ofName? p.name = some p := by cases p <;> rfl

end Position

/-- On top, or next to an anchor. -/
structure Relative where
  position : Position := .top
  anchor : Option Ingredient := none
deriving Inhabited

namespace Relative

/-- On top. -/
def top : Relative := {}

/-- Below an anchor. -/
def before (anchor : Ingredient) : Relative := ⟨.before, some anchor.leaf⟩

/-- Above an anchor. -/
def after (anchor : Ingredient) : Relative := ⟨.after, some anchor.leaf⟩

end Relative

/-- The colours a sandwich may be shown on. -/
def backgroundColors : List String := ["#00000000"]

/-- Ingredients from the bottom up, and what is known about them. -/
structure Sandwich where
  ingredients : List Ingredient := []
  ensured : List Ingredient := []
  complete : Bool := false
  background : String := "#00000000"
deriving Inhabited

namespace Sandwich

/-- The names of the ingredients, bottom first. -/
def names (s : Sandwich) : List String := s.ingredients.map (·.name)

/-- How often an ingredient of a name is on the sandwich. -/
def count (s : Sandwich) (name : String) : Nat := s.names.count name

/-- Whether an ingredient is on the sandwich. -/
def contains (s : Sandwich) (i : Ingredient) : Bool := s.ingredients.any (·.same i)

/-- Whether an ingredient is confirmed to be available. -/
def ensures (s : Sandwich) (i : Ingredient) : Bool := s.ensured.any (·.same i)

/-- Whether two sandwiches agree in every field, ingredients by name. -/
def same (s t : Sandwich) : Bool :=
  s.names == t.names && s.ensured.map (·.name) == t.ensured.map (·.name) &&
    s.complete == t.complete && s.background == t.background

/-- The names between brackets. -/
def text (s : Sandwich) : String := "[" ++ String.intercalate ", " s.names ++ "]"

end Sandwich

end DeliTalk
