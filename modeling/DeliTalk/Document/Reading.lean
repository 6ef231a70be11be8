import DeliTalk.Document.Check
import DeliTalk.Document.Numeral

/-!
# Reading plain values out of documents

The readers are lenient where nothing is lost: a flag may be written as zero or one or by a few
words, a number as a text, an integer as a number without a fraction. Texts are never made from
anything else.

* `Doc.asText`, `Doc.asFlag`, `Doc.asInt`, `Doc.asScalar`, `Doc.asListOf`, `Doc.asRegisterOf`,
  `Doc.asSet`, `Doc.asOptional`, `Doc.asOneOf`: one value.
* `Doc.field`, `Doc.fieldOr`: a named field of a map, required or with a default.
-/

namespace DeliTalk.Doc

variable {R α : Type}

/-! ## 1. Plain values -/

/-- A text. -/
def asText : Doc R → Check String
  | text s => .sound s
  | _ => .fail .notText

/-- The words a flag may be written by, in any case. -/
def flagWord? (s : String) : Option Bool :=
  let word := String.ofList (s.toList.map Char.toLower)
  if word ∈ ["0", "f", "n", "off", "false", "no"] then some false
  else if word ∈ ["1", "t", "y", "on", "true", "yes"] then some true
  else none

/-- Whether an integer fits into a machine word. -/
def isWordSized (n : Int) : Bool := -0x8000000000000000 ≤ n && n < 0x8000000000000000

/-- Whether an integer lies strictly between the least machine word and what is above the
greatest one. A scalar without a fraction counts as an integer only there. -/
def isInnerWord (n : Int) : Bool := -0x8000000000000000 < n && n < 0x8000000000000000

/-- The flag an integer stands for. One that fits into a machine word is a flag written wrongly,
a larger one is no flag at all. -/
def flagOfInt (n : Int) : Check Bool :=
  if n = 0 then .sound false
  else if n = 1 then .sound true
  else .fail (if isWordSized n then .unreadableFlag else .notFlag)

/-- A flag. -/
def asFlag [Scalar R] : Doc R → Check Bool
  | flag b => .sound b
  | int n => flagOfInt n
  | num x =>
    match (Scalar.whole? x).filter isInnerWord with
    | some n => flagOfInt n
    | none => .fail .notFlag
  | text s =>
    match flagWord? s with
    | some b => .sound b
    | none => .fail .unreadableFlag
  | _ => .fail .notFlag

/-- An integer. -/
def asInt [Scalar R] : Doc R → Check Int
  | int n => .sound n
  | flag b => .sound (if b then 1 else 0)
  | num x =>
    if Scalar.isFinite x then
      match Scalar.whole? x with
      | some n => if isInnerWord n then .sound n else .fail .oversizedInteger
      | none => .fail .fractional
    else .fail .notFinite
  | text s =>
    match Numeral.integer? s with
    | some n => .sound n
    | none => .fail .unreadableInteger
  | _ => .fail .notInteger

/-- A scalar. -/
def asScalar [Scalar R] : Doc R → Check R
  | num x => .sound x
  | int n =>
    let x : R := Scalar.ofInt n
    if Scalar.isFinite x then .sound x else .fail .notNumber
  | flag b => .sound (Scalar.ofInt (if b then 1 else 0))
  | text s =>
    match Numeral.scalar? s with
    | some x => .sound x
    | none => .fail .unreadableNumber
  | _ => .fail .notNumber

/-- A value out of a list of named ones. -/
def asOneOf (find? : String → Option α) : Doc R → Check α
  | text s =>
    match find? s with
    | some a => .sound a
    | none => .fail .notListed
  | _ => .fail .notListed

/-- A value that may be null. -/
def asOptional (read : Doc R → Check α) : Doc R → Check (Option α)
  | null => .sound none
  | d => some <$> read d

/-- How much room there is for values that hold values of their own kind: readers of such values
are given the room that is left, and find what lies deeper than that too deep. -/
def nestingLimit : Nat := 255

/-! ## 2. Lists, sets, registers -/

/-- Reads items from a given index on. -/
def readItems (read : Doc R → Check α) : Nat → List (Doc R) → Check (List α)
  | _, [] => .sound []
  | i, d :: rest => List.cons <$> (read d).under (.item i) <*> readItems read (i + 1) rest

/-- A list. -/
def asListOf (read : Doc R → Check α) : Doc R → Check (List α)
  | list items => readItems read 0 items
  | _ => .fail .notList

/-- The texts of a list, each once, in the order of their first mention. -/
def distinct (names : List String) : List String :=
  names.foldl (fun seen s => if s ∈ seen then seen else seen ++ [s]) []

/-- A set of texts. -/
def asSet : Doc R → Check (List String)
  | list items => distinct <$> readItems asText 0 items
  | _ => .fail .notSet

/-- Reads the values of a map. -/
def readEntries (read : Doc R → Check α) : List (String × Doc R) → Check (Register α)
  | [] => .sound []
  | (key, d) :: rest =>
    (fun a r => (key, a) :: r) <$> (read d).under (.field key) <*> readEntries read rest

/-- Named values. -/
def asRegisterOf (read : Doc R → Check α) : Doc R → Check (Register α)
  | map fields => readEntries read fields
  | _ => .fail .notMap

/-- A map of any values. -/
def asMap : Doc R → Check (Doc R)
  | map fields => .sound (map fields)
  | _ => .fail .notMap

/-! ## 3. Records -/

/-- The fields of a record. -/
def asRecord : Doc R → Check (List (String × Doc R))
  | map fields => .sound fields
  | _ => .fail .notRecord

/-- A field that has to be there. -/
def field (fields : List (String × Doc R)) (name : String) (read : Doc R → Check α) : Check α :=
  match Register.find? name fields with
  | some d => (read d).under (.field name)
  | none => Check.under (.field name) (.fail .missing)

/-- A field with a default. -/
def fieldOr (fields : List (String × Doc R)) (name : String) (read : Doc R → Check α)
    (default : α) : Check α :=
  match Register.find? name fields with
  | some d => (read d).under (.field name)
  | none => .sound default

/-- Accepts scalars that are at most one and at least zero; the upper bound is tested first. An
undefined quantity is within no bounds. -/
def checkShare [Scalar R] (x : R) : Check R :=
  if !decide (x ≤ (1.0 : R)) then .fail .tooHigh
  else if !decide ((0.0 : R) ≤ x) then .fail .tooLow
  else .sound x

/-- A share: a scalar from zero to one. -/
def asShare [Scalar R] (d : Doc R) : Check R := (asScalar d).andThen checkShare

end DeliTalk.Doc
