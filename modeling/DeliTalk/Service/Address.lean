import DeliTalk.Text.Glyph

/-!
# Addresses of requests

An address is a path of names, and named values after a question mark. A character that has a
meaning of its own is written by the numbers of its bytes, each after a percent sign.

* `unescaped`: a text with its escapes resolved.
* `Address.read`: the address a text writes.
-/

namespace DeliTalk

namespace Text

/-- The bytes of a text with its escapes resolved. A percent sign without two digits in base
sixteen stands for itself. -/
def unescapedBytes : List Char → List UInt8
  | [] => []
  | '%' :: a :: b :: rest =>
    match hexDigit? a, hexDigit? b with
    | some high, some low => UInt8.ofNat (high * 16 + low) :: unescapedBytes rest
    | _, _ => '%'.toUInt8 :: unescapedBytes (a :: b :: rest)
  | c :: rest => (String.singleton c).toUTF8.toList ++ unescapedBytes rest

/-- A text with its escapes resolved; one whose bytes are no text is left as it is. -/
def unescaped (cs : List Char) : String :=
  (String.fromUTF8? ⟨(unescapedBytes cs).toArray⟩).getD (String.ofList cs)

end Text

/-- A path of names, and named values. -/
structure Address where
  path : List String
  query : List (String × String)
deriving Repr, DecidableEq

namespace Address

open Text

/-- A named value: what stands before and after the first equals sign, where a plus sign is a
blank. -/
def pairOf (cs : List Char) : String × String :=
  let plain := cs.map fun c => if c = '+' then ' ' else c
  (unescaped (plain.takeWhile (· ≠ '=')), unescaped ((plain.dropWhile (· ≠ '=')).drop 1))

/-- A path without the name of a host, which stands between two slashes in front and the next
one. -/
def withoutHost : List Char → List Char
  | '/' :: '/' :: rest => rest.dropWhile (· ≠ '/')
  | cs => cs

/-- The names of a path, where one dot names the place itself and two dots the place above it. -/
def resolved (names : List (List Char)) : List (List Char) :=
  names.foldl
    (fun done name =>
      if name = ['.'] then done else if name = ['.', '.'] then done.dropLast else done ++ [name]) []

/-- The path of an address as it is written. Slashes in front do not count. Escapes are resolved
twice, on the way to a service and by the service. -/
def pathOf (cs : List Char) : List String :=
  let names := resolved (((withoutHost cs).dropWhile (· = '/')).splitOn '/')
  let once := unescaped (['/'].intercalate names)
  ((unescaped once.toList).toList.splitOn '/').map String.ofList

/-- The address a text writes. What follows a number sign does not count. -/
def read (text : String) : Address :=
  let cs := text.toList.takeWhile (· ≠ '#')
  let query := (cs.dropWhile (· ≠ '?')).drop 1
  { path := pathOf (cs.takeWhile (· ≠ '?'))
    query := ((query.splitOn '&').filter (· ≠ [])).map pairOf }

/-- The last value under a name. -/
def value? (a : Address) (name : String) : Option String :=
  ((a.query.filter (·.1 == name)).getLast?).map (·.2)

/-- The path without empty names at its end. -/
def shortPath (a : Address) : List String := (a.path.reverse.dropWhile (· == "")).reverse

end Address

end DeliTalk
