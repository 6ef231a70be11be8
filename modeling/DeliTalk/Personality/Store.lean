import DeliTalk.Personality.Birth
import DeliTalk.Personality.Document
import DeliTalk.Document.Source

/-!
# The store of one machine's personality

A personality is saved as a document without its absent parts. A file that is missing or
unusable is no error: the machine starts over.
-/

namespace DeliTalk.Personality

variable {R : Type}

/-- The document that is saved. -/
def saved (p : Personality R) : Doc R := p.toDoc.withoutNulls

/-- The saved personality, if there is a usable one. -/
def load? [Scalar R] : Source R → Option (Personality R)
  | .document d => (ofDoc d.orEmpty).toOption
  | .garbled | .absent => none

/-- The saved personality, or a newborn one. -/
def loadOrCreate [Scalar R] (source : Source R) (t : Taxonomy) (stock : Int) :
    Luck R (Personality R) :=
  match load? source with
  | some p => return p
  | none => newborn t stock

end DeliTalk.Personality
