import DeliTalk.Text.Glyph

/-!
# Quoted text in messages

A text inside a message stands between single quotes, or between double quotes if it holds a
single quote and no double one. Inside, the quote itself and the backslash are written after a
backslash, line ends and tabs by their letters, and characters that show nothing by their number.
-/

namespace DeliTalk.Text

/-- The quote a text is put between. -/
def quoteFor (cs : List Char) : Char :=
  if cs.contains '\'' && !cs.contains '"' then '"' else '\''

/-- A character that shows nothing, by its number. -/
def numbered (c : Char) : List Char :=
  let code := c.toNat
  if code < 0x100 then '\\' :: 'x' :: hex 2 code
  else if code < 0x10000 then '\\' :: 'u' :: hex 4 code
  else '\\' :: 'U' :: hex 8 code

/-- A character as it stands between quotes. -/
def escaped (quote c : Char) : List Char :=
  if c = quote ∨ c = '\\' then ['\\', c]
  else if c = '\n' then ['\\', 'n']
  else if c = '\r' then ['\\', 'r']
  else if c = '\t' then ['\\', 't']
  else if isHidden c then numbered c
  else [c]

/-- A text between quotes. -/
def quoted (s : String) : String :=
  let cs := s.toList
  let quote := quoteFor cs
  String.ofList (quote :: cs.flatMap (escaped quote) ++ [quote])

end DeliTalk.Text
