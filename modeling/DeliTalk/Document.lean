import DeliTalk.Register

/-!
# Documents: what is saved, sent and configured

A document is a tree of plain values: null, flags, integers, other numbers, texts, lists, and
maps with named fields in order. Personalities are saved as documents, messages travel as
documents, menus and dictionaries are loaded from them.

* `Doc.withoutNulls`: the same document with every null field of a map left out.
* `Doc.mapNumbers`: the same document with another document for every number that is no integer.
* `Doc.depth`: how deeply a document is nested.
* `Register.find?_lt`: a field of a map is smaller than the map, which bounds every reader.
-/

namespace DeliTalk

/-- A tree of plain values over a type of numbers. -/
inductive Doc (R : Type) where
  | null
  | flag (value : Bool)
  | int (value : Int)
  | num (value : R)
  | text (value : String)
  | list (items : List (Doc R))
  | map (fields : List (String × Doc R))
deriving Inhabited

/-- A field found in a list of fields is smaller than the list. -/
theorem Register.find?_lt {R : Type} {name : String} :
    ∀ {fields : List (String × Doc R)} {d : Doc R},
      Register.find? name fields = some d → sizeOf d < sizeOf fields
  | [], _, h => by simp at h
  | (key, value) :: rest, d, h => by
    unfold Register.find? at h
    split at h
    · cases h
      simp
      omega
    · have := Register.find?_lt h
      simp
      omega

namespace Doc

variable {R : Type}

/-- A list of texts. -/
def texts (names : List String) : Doc R := list (names.map text)

/-- A value that may be absent; absence is null. -/
def optional (encode : α → Doc R) : Option α → Doc R
  | none => null
  | some a => encode a

/-- Whether a document is null. -/
def isNull : Doc R → Bool
  | null => true
  | _ => false

mutual

/-- A document with the null fields of its maps left out. -/
def withoutNulls : Doc R → Doc R
  | null => null
  | flag b => flag b
  | int n => int n
  | num x => num x
  | text s => text s
  | list items => list (withoutNullsItems items)
  | map fields => map (withoutNullsFields fields)

/-- The items of a list, each without its null fields. -/
def withoutNullsItems : List (Doc R) → List (Doc R)
  | [] => []
  | d :: rest => withoutNulls d :: withoutNullsItems rest

/-- The fields that are not null, each without its own null fields. -/
def withoutNullsFields : List (String × Doc R) → List (String × Doc R)
  | [] => []
  | (key, d) :: rest =>
    if d.isNull then withoutNullsFields rest
    else (key, withoutNulls d) :: withoutNullsFields rest

end

mutual

/-- A document with another one for each of its numbers that are no integers. -/
def mapNumbers (f : R → Doc R) : Doc R → Doc R
  | null => null
  | flag b => flag b
  | int n => int n
  | num x => f x
  | text s => text s
  | list items => list (mapNumbersItems f items)
  | map fields => map (mapNumbersFields f fields)

/-- The items of a list, each with other documents for its numbers. -/
def mapNumbersItems (f : R → Doc R) : List (Doc R) → List (Doc R)
  | [] => []
  | d :: rest => mapNumbers f d :: mapNumbersItems f rest

/-- The fields of a map, each with other documents for its numbers. -/
def mapNumbersFields (f : R → Doc R) : List (String × Doc R) → List (String × Doc R)
  | [] => []
  | (key, d) :: rest => (key, mapNumbers f d) :: mapNumbersFields f rest

end

mutual

/-- The number of lists and maps around the innermost value; an empty one is a value. -/
def depth : Doc R → Nat
  | list (d :: rest) => max (depth d) (depthOfItems rest) + 1
  | map ((_, d) :: rest) => max (depth d) (depthOfFields rest) + 1
  | _ => 0

/-- The depth of the deepest of some documents. -/
def depthOfItems : List (Doc R) → Nat
  | [] => 0
  | d :: rest => max (depth d) (depthOfItems rest)

/-- The depth of the deepest of some fields. -/
def depthOfFields : List (String × Doc R) → Nat
  | [] => 0
  | (_, d) :: rest => max (depth d) (depthOfFields rest)

end

end Doc

end DeliTalk
