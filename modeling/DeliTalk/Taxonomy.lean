import DeliTalk.Fault
import DeliTalk.Ingredient
import DeliTalk.Word

/-!
# The taxonomy: the tree of everything that can go on a sandwich

An ingredient's word is the morphemes along its path from the root, put together. A taxonomy
needs a category of breads below the root, each a bottom and a top; one without is refused when
it is built, so a `Taxonomy` always has its breads.

* `Taxonomy.ofRoot`: the breads of a tree, or why it has none.
* `Taxonomy.walk`: every node with its word, depth first, with an explicit agenda.
* `Taxonomy.find?`, `wordFor?`, `ingredientFor`: from names to nodes and words, and back.
-/

namespace DeliTalk

namespace Ingredient

mutual

/-- The number of nodes of a tree. -/
def size : Ingredient → Nat
  | ⟨_, _, none⟩ => 1
  | ⟨_, _, some cs⟩ => 1 + sizes cs

/-- The number of nodes of several trees. -/
def sizes : List Ingredient → Nat
  | [] => 0
  | i :: rest => size i + sizes rest

end

theorem sizes_append : ∀ is js : List Ingredient, sizes (is ++ js) = sizes is + sizes js
  | [], js => by simp [sizes]
  | i :: rest, js => by
    simp only [List.cons_append, sizes, sizes_append rest js]
    omega

theorem size_eq (i : Ingredient) : i.size = 1 + sizes i.kids := by
  obtain ⟨name, morpheme, children⟩ := i
  cases children <;> simp [size, kids, sizes]

end Ingredient

/-- A pair of breads, bottom and top. -/
abbrev Bread := Ingredient × Ingredient

/-- The name of the category of breads. -/
def baseName : String := "base"

/-- The bottom and the top of one kind of bread. -/
def Bread.ofKind (kind : Ingredient) : Except MenuFault Bread :=
  match kind.kids with
  | bottom :: top :: _ => .ok (bottom.leaf, top.leaf)
  | _ => .error (.thinBread kind.name)

/-- The breads of a list of kinds; the first kind without a top is refused. -/
def Bread.ofKinds : List Ingredient → Except MenuFault (List Bread)
  | [] => .ok []
  | kind :: rest => do
    let bread ← Bread.ofKind kind
    let breads ← Bread.ofKinds rest
    return bread :: breads

/-- The breads of a tree. -/
def Bread.ofTree (root : Ingredient) : Except MenuFault (List Bread) :=
  match root.kids.find? (·.name == baseName) with
  | none => .error .noBase
  | some base => if base.isLeaf then .error .noBase else Bread.ofKinds base.kids

/-- A tree of ingredients together with its breads. -/
structure Taxonomy where
  root : Ingredient
  breads : List Bread
  breads_eq : Bread.ofTree root = .ok breads

namespace Taxonomy

/-- The taxonomy of a tree. -/
def ofRoot (root : Ingredient) : Except MenuFault Taxonomy :=
  match h : Bread.ofTree root with
  | .ok breads => .ok ⟨root, breads, h⟩
  | .error e => .error e

/-! ## 1. Every node with its word -/

/-- The children of a node, each with its word. -/
def branches (node : Ingredient) (word : String) : List (Ingredient × String) :=
  node.kids.map fun child => (child, word ++ child.morpheme)

theorem sizes_branches (node : Ingredient) (word : String) :
    Ingredient.sizes ((branches node word).map (·.1)) = Ingredient.sizes node.kids := by
  simp [branches, Function.comp_def]

/-- Works off an agenda of nodes: takes the first one and puts its children in its place. -/
def visit (agenda : List (Ingredient × String)) : List (Ingredient × String) :=
  match agenda with
  | [] => []
  | (node, word) :: rest => (node, word) :: visit (branches node word ++ rest)
termination_by Ingredient.sizes (agenda.map (·.1))
decreasing_by
  simp only [List.map_append, Ingredient.sizes_append, sizes_branches, List.map_cons,
    Ingredient.sizes, Ingredient.size_eq node]
  omega

/-- Every node with its word, depth first. -/
def walk (t : Taxonomy) : List (Ingredient × String) := visit [(t.root, t.root.morpheme)]

/-- The leaves with their words. -/
def leaves (t : Taxonomy) : List (Ingredient × String) :=
  (t.walk.filter (·.1.isLeaf)).map fun p => (p.1.leaf, p.2)

/-- The names of the leaves. -/
def leafNames (t : Taxonomy) : List String := t.leaves.map (·.1.name)

/-! ## 2. Breads and fillings -/

/-- Whether an ingredient is a bread. -/
def isBase (t : Taxonomy) (i : Ingredient) : Bool :=
  t.breads.any fun b => b.1.same i || b.2.same i

/-- The leaves that are no bread. -/
def fillings (t : Taxonomy) : List Ingredient :=
  (t.leaves.map (·.1)).filter fun i => !t.isBase i

/-! ## 3. Names and nodes -/

/-- The first node of a name. -/
def node? (t : Taxonomy) (name : String) : Option Ingredient :=
  (t.walk.find? (·.1.name == name)).map (·.1)

/-- The first node of a name; a leaf as a childless copy. -/
def find? (t : Taxonomy) (name : String) : Option Ingredient :=
  (t.node? name).map fun i => if i.isLeaf then i.leaf else i

/-- Whether an ingredient falls under a category, which is looked up by its name. -/
def includes (t : Taxonomy) (category i : Ingredient) : Bool :=
  match t.node? category.name with
  | some node => node.includes i
  | none => false

/-! ## 4. Words and nodes -/

mutual

/-- The morphemes from a node down to the first node of a name, after those read so far. -/
def pathTo : Ingredient → String → String → Option String
  | ⟨name, morpheme, none⟩, wanted, done =>
    if name = wanted then some (done ++ morpheme) else none
  | ⟨name, morpheme, some cs⟩, wanted, done =>
    if name = wanted then some (done ++ morpheme) else pathAmong cs wanted (done ++ morpheme)

/-- The same, through the first of several nodes that leads there. -/
def pathAmong : List Ingredient → String → String → Option String
  | [], _, _ => none
  | i :: rest, wanted, done =>
    match pathTo i wanted done with
    | some word => some word
    | none => pathAmong rest wanted done

end

/-- The word of an ingredient. -/
def wordFor? (t : Taxonomy) (i : Ingredient) : Option String := pathTo t.root i.name ""

/-- The child a syllable leads to; without one the walk stays where it is. -/
def descend (node : Ingredient) (syllable : Syllable) : Ingredient :=
  (node.kids.find? (·.morpheme == syllable.text)).getD node

/-- The ingredient a word leads to. The first syllable belongs to the root. -/
def ingredientFor (t : Taxonomy) (w : Word) : Ingredient :=
  let node := w.syllables.tail.foldl descend t.root
  if node.isLeaf then node.leaf else node

end Taxonomy

end DeliTalk
