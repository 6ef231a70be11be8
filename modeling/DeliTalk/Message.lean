import DeliTalk.Sandwich.Document

/-!
# Messages: what one machine sends the other each turn

Words or silence, and a sandwich or none.
-/

namespace DeliTalk

/-- What is sent in one turn. -/
structure Message where
  text : Option String := none
  sandwich : Option Sandwich := none
deriving Inhabited

namespace Message

variable {R : Type}

/-- A message as a document. -/
def toDoc (m : Message) : Doc R :=
  .map [("text", Doc.optional .text m.text), ("sandwich", Doc.optional Sandwich.toDoc m.sandwich)]

/-- Reads a message. -/
def ofDoc [Scalar R] (d : Doc R) : Check Message :=
  d.asRecord.andThen fun fs =>
    Message.mk <$> Doc.fieldOr fs "text" (Doc.asOptional Doc.asText) none
      <*> Doc.fieldOr fs "sandwich" (Doc.asOptional (Sandwich.ofDoc Doc.nestingLimit)) none

end Message

end DeliTalk
