import DeliTalk.Taxonomy

/-!
# The house menu

The taxonomy a machine works with unless it is given another one: three breads, and fillings
from cheese to spreads.
-/

namespace DeliTalk.Taxonomy.House

/-- A leaf. -/
def item (name morpheme : String) : Ingredient := ⟨name, morpheme, none⟩

/-- A category. -/
def category (name morpheme : String) (children : List Ingredient) : Ingredient :=
  ⟨name, morpheme, some children⟩

/-- The breads. -/
def base : Ingredient :=
  category "base" "po"
    [category "white" "ke" [item "white-bread-bottom" "li", item "white-bread-top" "lu"],
      category "wheat" "ka" [item "wheat-bread-bottom" "mi", item "wheat-bread-top" "mu"],
      category "rye" "ku" [item "rye-bread-bottom" "ni", item "rye-bread-top" "nu"]]

/-- The whole tree. -/
def root : Ingredient :=
  category "ingredient" "sa"
    [base,
      category "cheese" "wa" [item "cheddar" "pe", item "swiss" "pi", item "provolone" "po"],
      category "vegetable" "we"
        [item "lettuce" "ta", item "tomato" "to", item "onion" "on", item "pickle" "pi",
          item "avocado" "ak"],
      category "meat" "mo"
        [item "ham" "ha", item "turkey" "tu", item "bacon" "pa", item "salami" "sa"],
      category "spread" "he" [item "mayo" "ma", item "mustard" "mu", item "hummus" "hu"]]

/-- The breads of the house menu. -/
def breads : List Bread :=
  [(item "white-bread-bottom" "li", item "white-bread-top" "lu"),
    (item "wheat-bread-bottom" "mi", item "wheat-bread-top" "mu"),
    (item "rye-bread-bottom" "ni", item "rye-bread-top" "nu")]

end House

/-- The house menu. -/
def house : Taxonomy := ⟨House.root, House.breads, rfl⟩

end DeliTalk.Taxonomy
