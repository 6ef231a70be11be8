import DeliTalk.Taxonomy
import DeliTalk.Ingredient.Document
import DeliTalk.Document.Source

/-!
# Loading a taxonomy

Any problem with the file, the document or the breads is fatal.
-/

namespace DeliTalk.Taxonomy

/-- The taxonomy a file holds. -/
def load {R : Type} (source : Source R) : Except MenuFault Taxonomy := do
  match Ingredient.ofDoc Doc.nestingLimit (← source.menu) with
  | .sound root => ofRoot root
  | .flawed problems => .error (.flawed problems)

end DeliTalk.Taxonomy
