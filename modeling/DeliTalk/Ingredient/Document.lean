import DeliTalk.Ingredient
import DeliTalk.Document.Reading

/-!
# Ingredients as documents

Every field is written, an absent list of children as null. Reading them back gives the same
tree, with an absent and an empty list of children kept apart, exactly if the tree is no higher than
the room it is read in (`givesIf_ofDoc`).
-/

namespace DeliTalk.Ingredient

variable {R : Type}

mutual

/-- An ingredient as a document. -/
def toDoc : Ingredient → Doc R
  | ⟨name, morpheme, none⟩ =>
    .map [("name", .text name), ("morpheme", .text morpheme), ("children", .null)]
  | ⟨name, morpheme, some cs⟩ =>
    .map [("name", .text name), ("morpheme", .text morpheme), ("children", .list (toDocs cs))]

/-- Several ingredients as documents. -/
def toDocs : List Ingredient → List (Doc R)
  | [] => []
  | i :: rest => toDoc i :: toDocs rest

end

/-- Reads an ingredient that is at most as high as the room allows. -/
def ofDoc : (room : Nat) → Doc R → Check Ingredient
  | 0, _ => .fail .tooDeep
  | room + 1, d =>
    d.asRecord.andThen fun fs =>
      Ingredient.mk <$> Doc.field fs "name" Doc.asText <*> Doc.field fs "morpheme" Doc.asText
        <*> Doc.fieldOr fs "children" (Doc.asOptional (Doc.asListOf (ofDoc room))) none

/-! ## Reading back -/

open Check Doc

mutual

/-- The number of nodes on the longest way down a tree. -/
def height : Ingredient → Nat
  | ⟨_, _, none⟩ => 1
  | ⟨_, _, some cs⟩ => heights cs + 1

/-- The height of the highest of several trees. -/
def heights : List Ingredient → Nat
  | [] => 0
  | i :: rest => max (height i) (heights rest)

end

theorem height_le_heights {i : Ingredient} : ∀ {cs : List Ingredient}, i ∈ cs →
    i.height ≤ heights cs
  | c :: rest, h => by
    simp only [heights]
    rcases List.mem_cons.mp h with rfl | h
    · omega
    · have := height_le_heights h
      omega

theorem height_pos (i : Ingredient) : 0 < i.height := by
  obtain ⟨name, morpheme, _ | cs⟩ := i <;> simp [height]

/-- A node is read back with the children that are. -/
theorem givesIf_node {fits : Prop} {room : Nat} {name morpheme : String}
    {children : Option (List Ingredient)} {kids : Doc R}
    (h : GivesIf fits children (asOptional (asListOf (ofDoc room)) kids)) :
    GivesIf fits ⟨name, morpheme, children⟩ (ofDoc (room + 1)
      (.map [("name", .text name), ("morpheme", .text morpheme), ("children", kids)])) := by
  have hnode : GivesIf (True ∧ fits) (Ingredient.mk name morpheme children) _ :=
    (givesIf_sound trivial).seq (h.under (.field "children"))
  simpa [ofDoc, asRecord, field, fieldOr, Register.find?, asText] using hnode

mutual

/-- **A tree is read back exactly if it is no higher than the room.** -/
theorem givesIf_ofDoc : ∀ (room : Nat) (i : Ingredient),
    GivesIf (i.height ≤ room) i (ofDoc room (toDoc i : Doc R))
  | 0, i => givesIf_tooDeep (by have := i.height_pos; omega)
  | room + 1, ⟨name, morpheme, none⟩ => givesIf_node (givesIf_sound (by simp [height]))
  | room + 1, ⟨name, morpheme, some cs⟩ => by
    have hcs := (givesIf_toDocs room 0 cs).map some
    refine (givesIf_node hcs).congr ?_
    simp only [height, Nat.add_le_add_iff_right]

theorem givesIf_toDocs : ∀ (room k : Nat) (cs : List Ingredient),
    GivesIf (heights cs ≤ room) cs (readItems (ofDoc room) k (toDocs cs : List (Doc R)))
  | _, _, [] => givesIf_sound (by simp [heights])
  | room, k, c :: rest => by
    have hc := ((givesIf_ofDoc room c).under (.item k)).map List.cons
    refine (hc.seq (givesIf_toDocs room (k + 1) rest)).congr ?_
    rw [heights, Nat.max_le]

end

/-- Several ingredients are read back if all of them fit into the room. -/
theorem asListOf_toDocs {room : Nat} {cs : List Ingredient} (h : heights cs ≤ room) :
    asListOf (ofDoc (R := R) room) (.list (toDocs cs)) = .sound cs :=
  (givesIf_toDocs room 0 cs).1 h

end DeliTalk.Ingredient
