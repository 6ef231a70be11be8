/-!
# Ingredients

An ingredient is a node of the food tree: a name, the morpheme it adds to its word, and its
children. Leaves are what goes on a sandwich, inner nodes are categories. Two ingredients are
the same ingredient when their names match; a childless copy of an ingredient is what travels
inside sandwiches.

An absent list of children and an empty one are told apart, although both make a leaf.
-/

namespace DeliTalk

/-- A node of the food tree. -/
structure Ingredient where
  name : String
  morpheme : String
  children : Option (List Ingredient)
deriving Inhabited

namespace Ingredient

/-- The children, none of them if the list is absent. -/
def kids (i : Ingredient) : List Ingredient := i.children.getD []

/-- Whether an ingredient has no children. -/
def isLeaf (i : Ingredient) : Bool := i.kids.isEmpty

/-- The same ingredient without children. -/
def leaf (i : Ingredient) : Ingredient := ⟨i.name, i.morpheme, none⟩

/-- Whether two ingredients have the same name. -/
def same (i j : Ingredient) : Bool := i.name == j.name

@[simp] theorem name_leaf (i : Ingredient) : i.leaf.name = i.name := rfl

@[simp] theorem leaf_leaf (i : Ingredient) : i.leaf.leaf = i.leaf := rfl

@[simp] theorem isLeaf_leaf (i : Ingredient) : i.leaf.isLeaf = true := rfl

mutual

/-- Whether an ingredient of the given name is the node itself or below it. -/
def covers : Ingredient → String → Bool
  | ⟨name, _, none⟩, wanted => name == wanted
  | ⟨name, _, some cs⟩, wanted => name == wanted || anyCovers cs wanted

/-- Whether one of several nodes is, or has below it, an ingredient of the given name. -/
def anyCovers : List Ingredient → String → Bool
  | [], _ => false
  | i :: rest, wanted => covers i wanted || anyCovers rest wanted

end

/-- Whether an ingredient is the node itself or below it. -/
def includes (category i : Ingredient) : Bool := category.covers i.name

theorem covers_self (i : Ingredient) : i.covers i.name = true := by
  obtain ⟨name, morpheme, children⟩ := i
  cases children <;> simp [covers]

end Ingredient

end DeliTalk
