import DeliTalk.Operation
import DeliTalk.Sandwich.Document

/-!
# Operations as documents

The field `kind` says which operation a document holds, and the other fields depend on it.
Operations are nested only as deep as there is room. Each one takes one from the room; one that
holds others and is of a lower rank than every such kind around it takes two.

* `toDoc`: an operation as a document.
* `ofDoc`, `ofDocBelow`: an operation from a document, down to some depth.
* `Counted`, `height`: what an operation has to be to come back from its document.
-/

namespace DeliTalk.Operation

variable {R : Type}

/-- An operation as a document. -/
def toDoc : Operation → Doc R
  | add i r => .map [("kind", .text "add"), ("ingredient", i.toDoc), ("relative", r.toDoc)]
  | remove i => .map [("kind", .text "remove"), ("ingredient", i.toDoc)]
  | removeAll i => .map [("kind", .text "remove_all"), ("ingredient", i.toDoc)]
  | repeated n x => .map [("kind", .text "repeat"), ("count", .int n), ("operation", toDoc x)]
  | compound x y => .map [("kind", .text "compound"), ("first", toDoc x), ("second", toDoc y)]
  | ensure i => .map [("kind", .text "ensure"), ("ingredient", i.toDoc)]
  | persist x => .map [("kind", .text "persist"), ("operation", toDoc x)]
  | affirm => .map [("kind", .text "affirm")]
  | negate => .map [("kind", .text "negate")]
  | checkFor i => .map [("kind", .text "check_for"), ("ingredient", i.toDoc)]
  | finish => .map [("kind", .text "finish")]

/-! ## 1. Reading -/

/-- The kinds of operations that hold no other ones. -/
def plainKinds : List String :=
  ["add", "remove", "remove_all", "ensure", "affirm", "negate", "check_for", "finish"]

/-- The rank of a kind of operations that hold others. -/
def rank? (kind : String) : Option Nat :=
  if kind = "repeat" then some 0
  else if kind = "compound" then some 1
  else if kind = "persist" then some 2
  else none

/-- The rank that every kind is below. -/
def topRank : Nat := 3

/-- The kind of a document's operation, and its fields. -/
def kindOfDoc : Doc R → Check (String × List (String × Doc R))
  | .map fs =>
    match Register.find? "kind" fs with
    | none => .fail .untagged
    | some (.text kind) =>
      if kind ∈ plainKinds ∨ (rank? kind).isSome then .sound (kind, fs) else .fail .unknownTag
    | some _ => .fail .unknownTag
  | _ => .fail .notTagged

/-- Reads a count, which is at least one. -/
def countOfDoc [Scalar R] (d : Doc R) : Check Nat :=
  (·.toNat) <$> (Doc.asInt d).require (fun n => decide (1 ≤ n)) .tooLow

/-- Reads the fields of an operation that holds no other one. -/
def plainOfFields (room : Nat) (kind : String) (fs : List (String × Doc R)) : Check Operation :=
  let ingredient := Doc.field fs "ingredient" (Ingredient.ofDoc (room - 1))
  if kind = "add" then
    add <$> ingredient <*> Doc.fieldOr fs "relative" (Relative.ofDoc room) .top
  else if kind = "remove" then remove <$> ingredient
  else if kind = "remove_all" then removeAll <$> ingredient
  else if kind = "ensure" then ensure <$> ingredient
  else if kind = "check_for" then checkFor <$> ingredient
  else if kind = "affirm" then .sound affirm
  else if kind = "negate" then .sound negate
  else .sound finish

/-- Reads the fields of an operation that holds others. -/
def holderOfFields [Scalar R] (read : Doc R → Check Operation) (kind : String)
    (fs : List (String × Doc R)) : Check Operation :=
  if kind = "repeat" then
    repeated <$> Doc.field fs "count" countOfDoc <*> Doc.field fs "operation" read
  else if kind = "compound" then
    compound <$> Doc.field fs "first" read <*> Doc.field fs "second" read
  else persist <$> Doc.field fs "operation" read

/-- Reads an operation inside others, the least rank of which is given. Problems with its fields
are found below its kind. -/
def ofDocBelow [Scalar R] : (room rank : Nat) → Doc R → Check Operation
  | 0, _, d => (kindOfDoc d).andThen fun p => Check.under (.field p.1) (.fail .tooDeep)
  | room + 1, rank, d =>
    (kindOfDoc d).andThen fun (kind, fs) => Check.under (.field kind) <|
      match rank? kind with
      | none => plainOfFields room kind fs
      | some own =>
        if rank ≤ own then holderOfFields (ofDocBelow room rank) kind fs
        else
          match room with
          | 0 => .fail .tooDeep
          | left + 1 => holderOfFields (ofDocBelow left own) kind fs

/-- Reads an operation. -/
def ofDoc [Scalar R] (d : Doc R) : Check Operation := ofDocBelow Doc.nestingLimit topRank d

/-! ## 2. What can be written -/

/-- Whether every count in an operation is at least one. -/
def Counted : Operation → Prop
  | repeated n x => 1 ≤ n ∧ Counted x
  | compound x y => Counted x ∧ Counted y
  | persist x => Counted x
  | _ => True

/-- The room an operation takes where no rank gets lower. -/
def height : Operation → Nat
  | add i r => max i.height ((r.anchor.map Ingredient.height).getD 0) + 2
  | remove i | removeAll i | ensure i | checkFor i => i.height + 2
  | repeated _ x | persist x => height x + 1
  | compound x y => max (height x) (height y) + 1
  | affirm | negate | finish => 1

end DeliTalk.Operation
