import DeliTalk.Sandwich
import DeliTalk.Ingredient.Document

/-!
# Sandwiches as documents

Placements and sandwiches are written with every field. They are read back unchanged as long as
their ingredients fit into the room that is left for them, which is one less than their own; a
placement whose anchor does not fit is not read back (`Relative.givesIf_ofDoc`).
-/

namespace DeliTalk

variable {R : Type}

namespace Relative

/-- A placement as a document. -/
def toDoc (r : Relative) : Doc R :=
  .map [("position", .text r.position.name), ("anchor", Doc.optional Ingredient.toDoc r.anchor)]

/-- Reads a placement. -/
def ofDoc (room : Nat) (d : Doc R) : Check Relative :=
  d.asRecord.andThen fun fs =>
    Relative.mk <$> Doc.fieldOr fs "position" (Doc.asOneOf Position.ofName?) .top
      <*> Doc.fieldOr fs "anchor" (Doc.asOptional (Ingredient.ofDoc (room - 1))) none

/-- Whether the anchor of a placement is read back in some room. -/
def Fits (room : Nat) (r : Relative) : Prop := ∀ a ∈ r.anchor, a.height ≤ room - 1

open Check Doc in
/-- A placement is read back exactly if its anchor is. -/
theorem givesIf_ofDoc {room : Nat} (r : Relative) :
    GivesIf (r.Fits room) r (ofDoc room (toDoc r : Doc R)) := by
  obtain ⟨position, anchor⟩ := r
  have hanchor : GivesIf (∀ a ∈ anchor, a.height ≤ room - 1) anchor
      (asOptional (Ingredient.ofDoc (room - 1)) (optional Ingredient.toDoc anchor : Doc R)) := by
    cases anchor with
    | none => exact givesIf_sound (by simp)
    | some a =>
      have h := ((Ingredient.givesIf_ofDoc (R := R) (room - 1) a).map some).congr
        (by simp : _ ↔ ∀ b ∈ some a, b.height ≤ room - 1)
      obtain ⟨name, morpheme, _ | cs⟩ := a <;> exact h
  have hplace : GivesIf (True ∧ _) (Relative.mk position anchor) _ :=
    (givesIf_sound trivial).seq (hanchor.under (.field "anchor"))
  simpa [ofDoc, toDoc, asRecord, fieldOr, Register.find?, asOneOf, Position.ofName?_name, Fits]
    using hplace

end Relative

namespace Sandwich

/-- Ingredients as a list of documents. -/
def ingredientsDoc (is : List Ingredient) : Doc R := .list (Ingredient.toDocs is)

/-- A sandwich as a document. -/
def toDoc (s : Sandwich) : Doc R :=
  .map [("ingredients", ingredientsDoc s.ingredients), ("ensured", ingredientsDoc s.ensured),
    ("complete", .flag s.complete), ("background_color", .text s.background)]

/-- Reads a sandwich. -/
def ofDoc [Scalar R] (room : Nat) (d : Doc R) : Check Sandwich :=
  d.asRecord.andThen fun fs =>
    let stack := Doc.asListOf (Ingredient.ofDoc (room - 1))
    Sandwich.mk <$> Doc.fieldOr fs "ingredients" stack [] <*> Doc.fieldOr fs "ensured" stack []
      <*> Doc.fieldOr fs "complete" Doc.asFlag false
      <*> Doc.fieldOr fs "background_color" Doc.asText "#00000000"

theorem ofDoc_toDoc [Scalar R] {room : Nat} {s : Sandwich}
    (hi : Ingredient.heights s.ingredients ≤ room - 1)
    (he : Ingredient.heights s.ensured ≤ room - 1) :
    ofDoc room (toDoc s : Doc R) = .sound s := by
  simp [ofDoc, toDoc, Doc.asRecord, Doc.fieldOr, Register.find?, ingredientsDoc,
    Ingredient.asListOf_toDocs hi, Ingredient.asListOf_toDocs he, Doc.asFlag, Doc.asText]

end Sandwich

end DeliTalk
