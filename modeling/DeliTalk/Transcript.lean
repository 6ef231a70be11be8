import DeliTalk.Fault
import DeliTalk.Document.Moment
import DeliTalk.Sandwich.Document

/-!
# Transcripts: every turn of every negotiation

Each line of dialogue becomes one record: who spoke, what was said, what it was meant to mean, the
sandwich after it. Records are only ever appended; they are found by session and by recency.
-/

namespace DeliTalk

/-- One recorded turn. -/
structure TurnRecord (R : Type) where
  session : String
  turn : Int
  speaker : String
  text : Option String := none
  operation : Option (Doc R) := none
  sandwich : Option (Doc R) := none
  score : Option R := none
deriving Inhabited

namespace TurnRecord

variable {R : Type}

/-- A record as a document, without the moment it was made. -/
def toDoc (r : TurnRecord R) : Doc R :=
  .map [("session_id", .text r.session), ("turn", .int r.turn), ("speaker", .text r.speaker),
    ("text", Doc.optional .text r.text), ("operation", Doc.optional id r.operation),
    ("sandwich", Doc.optional id r.sandwich), ("score", Doc.optional .num r.score)]

/-- Reads a record; the moment it was made has to be there and is not kept. -/
def ofDoc [Scalar R] (d : Doc R) : Check (TurnRecord R) :=
  d.asRecord.andThen fun fs =>
    (fun session turn speaker text operation sandwich score (_ : Unit) =>
        (⟨session, turn, speaker, text, operation, sandwich, score⟩ : TurnRecord R))
      <$> Doc.field fs "session_id" Doc.asText <*> Doc.field fs "turn" Doc.asInt
      <*> Doc.field fs "speaker" Doc.asText
      <*> Doc.fieldOr fs "text" (Doc.asOptional Doc.asText) none
      <*> Doc.fieldOr fs "operation" (Doc.asOptional Doc.asMap) none
      <*> Doc.fieldOr fs "sandwich" (Doc.asOptional Doc.asMap) none
      <*> Doc.fieldOr fs "score" (Doc.asOptional Doc.asScalar) none
      <*> Doc.field fs "recorded_at" Doc.asTime

end TurnRecord

/-- The records of a store, the first one first. -/
structure Transcript (R : Type) where
  records : List (TurnRecord R) := []

namespace Transcript

variable {R : Type}

/-- A record as it is stored: numbers that are not finite are not kept. -/
def stored [Scalar R] (r : TurnRecord R) : TurnRecord R :=
  let kept : Doc R → Doc R := Doc.mapNumbers fun x => if Scalar.isFinite x then .num x else .null
  { r with
    operation := r.operation.map kept
    sandwich := r.sandwich.map kept
    score := r.score.filter Scalar.isFinite }

/-- Appends a record. A turn number beyond a machine word is refused. -/
def append [Scalar R] (t : Transcript R) (r : TurnRecord R) : Except Fault (Transcript R) :=
  if Doc.isWordSized r.turn then .ok ⟨t.records ++ [stored r]⟩ else .error .oversized

/-- Appends records whose turn numbers are known to be small. -/
def extend (t : Transcript R) (rs : List (TurnRecord R)) : Transcript R := ⟨t.records ++ rs⟩

/-- How deeply a record may be nested to be read back. -/
def depthLimit : Nat := 200

/-- Reads records back. -/
def readBack (rs : List (TurnRecord R)) : Except Fault (List (TurnRecord R)) :=
  if rs.any fun r => depthLimit < r.toDoc.depth then .error (.flawed [⟨[], .malformed⟩]) else .ok rs

/-- The turns of one negotiation, in the order they happened. -/
def session (t : Transcript R) (name : String) : Except Fault (List (TurnRecord R)) :=
  readBack (t.records.filter (·.session == name))

/-- The names of the negotiations, in the order of their first turns. -/
def sessions (t : Transcript R) : List String := Doc.distinct (t.records.map (·.session))

/-- The last turns of all negotiations, the oldest first. A negative limit is none; one beyond a
machine word is refused. -/
def recent (t : Transcript R) (limit : Int) : Except Fault (List (TurnRecord R)) :=
  if !Doc.isWordSized limit then .error .oversized
  else if limit < 0 then readBack t.records
  else readBack (t.records.drop (t.records.length - limit.toNat))

/-- The number of turns. -/
def count (t : Transcript R) : Nat := t.records.length

end Transcript

end DeliTalk
