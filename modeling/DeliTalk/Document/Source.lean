import DeliTalk.Document
import DeliTalk.Fault

/-!
# Where documents come from

Opening a file gives a document, or a text that is no document, or nothing at all. Several
loaders take a document that says nothing for an empty map.
-/

namespace DeliTalk

/-- What became of opening a file. -/
inductive Source (R : Type) where
  | document (d : Doc R)
  | garbled
  | absent

/-- Whether a document says nothing: null, false, zero, or an empty text, list or map. -/
def Doc.isBlank {R : Type} [Scalar R] : Doc R → Bool
  | .null | .flag false | .int 0 | .text "" | .list [] | .map [] => true
  | .num x => Scalar.same x (Scalar.ofInt 0)
  | _ => false

/-- A document, where one that says nothing counts as an empty map. -/
def Doc.orEmpty {R : Type} [Scalar R] (d : Doc R) : Doc R := if d.isBlank then .map [] else d

/-- The document of a menu or dictionary file. -/
def Source.menu {R : Type} : Source R → Except MenuFault (Doc R)
  | document d => .ok d
  | garbled => .error .malformed
  | absent => .error .unreadable

end DeliTalk
