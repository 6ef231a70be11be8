import DeliTalk.Document
import DeliTalk.Text.Glyph

/-!
# Writing JSON

Three ways of laying out the same value: without any blanks, as frames and answers are sent, and
over several lines with an indent, as outcomes are printed. Quotes, backslashes and control
characters are escaped; whether characters beyond ASCII are escaped too is a choice of the
layout.
-/

namespace DeliTalk.Json

open Text

variable {R : Type}

/-- The escape of a character beyond the plain ones: one number, or two halves. -/
def numberedEscape (c : Char) : List Char :=
  let n := c.toNat
  if n < 0x10000 then '\\' :: 'u' :: hex 4 n
  else
    let m := n - 0x10000
    ('\\' :: 'u' :: hex 4 (0xd800 + m / 0x400)) ++ ('\\' :: 'u' :: hex 4 (0xdc00 + m % 0x400))

/-- A character inside a text. -/
def escape (asciiOnly : Bool) (c : Char) : List Char :=
  if c = '"' then ['\\', '"']
  else if c = '\\' then ['\\', '\\']
  else if c = '\x08' then ['\\', 'b']
  else if c = '\t' then ['\\', 't']
  else if c = '\n' then ['\\', 'n']
  else if c = '\x0c' then ['\\', 'f']
  else if c = '\r' then ['\\', 'r']
  else if c.toNat < 0x20 then numberedEscape c
  else if asciiOnly && 0x7f ≤ c.toNat then numberedEscape c
  else [c]

/-- A text with its quotes. -/
def writeText (asciiOnly : Bool) (s : String) : List Char :=
  '"' :: (s.toList.flatMap (escape asciiOnly) ++ ['"'])

/-- How a document is laid out. -/
structure Layout (R : Type) where
  /-- The text of a number that is no integer. -/
  number : R → String
  /-- Whether characters beyond ASCII are escaped. -/
  asciiOnly : Bool := false
  /-- The blanks per level; none for a single line. -/
  indent : Option Nat := none

namespace Layout

/-- What stands between brackets and values at a level: nothing, or a new line. -/
def newline (layout : Layout R) (level : Nat) : List Char :=
  match layout.indent with
  | none => []
  | some width => '\n' :: List.replicate (width * level) ' '

/-- What stands between a name and its value. -/
def colon (layout : Layout R) : List Char :=
  if layout.indent.isSome then [':', ' '] else [':']

end Layout

mutual

/-- The text of a document at a level of nesting. -/
def write (layout : Layout R) (level : Nat) : Doc R → List Char
  | .null => ['n', 'u', 'l', 'l']
  | .flag true => ['t', 'r', 'u', 'e']
  | .flag false => ['f', 'a', 'l', 's', 'e']
  | .int n => (toString n).toList
  | .num x => (layout.number x).toList
  | .text s => writeText layout.asciiOnly s
  | .list [] => ['[', ']']
  | .list (d :: rest) =>
    '[' :: (layout.newline (level + 1) ++ write layout (level + 1) d ++
      writeItems layout (level + 1) rest ++ layout.newline level ++ [']'])
  | .map [] => ['\x7b', '\x7d']
  | .map ((key, d) :: rest) =>
    '\x7b' :: (layout.newline (level + 1) ++ writeText layout.asciiOnly key ++ layout.colon ++
      write layout (level + 1) d ++ writeFields layout (level + 1) rest ++
      layout.newline level ++ ['\x7d'])

/-- The further values of a list. -/
def writeItems (layout : Layout R) (level : Nat) : List (Doc R) → List Char
  | [] => []
  | d :: rest =>
    ',' :: (layout.newline level ++ write layout level d ++ writeItems layout level rest)

/-- The further fields of a map. -/
def writeFields (layout : Layout R) (level : Nat) : List (String × Doc R) → List Char
  | [] => []
  | (key, d) :: rest =>
    ',' :: (layout.newline level ++ writeText layout.asciiOnly key ++ layout.colon ++
      write layout level d ++ writeFields layout level rest)

end

/-- The text of a document. -/
def render (layout : Layout R) (d : Doc R) : String := String.ofList (write layout 0 d)

end DeliTalk.Json
