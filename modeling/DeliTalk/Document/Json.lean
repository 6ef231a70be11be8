import DeliTalk.Document.Numeral
import DeliTalk.Document

/-!
# Reading JSON

A strict reader: one value, blanks around it, nothing after it. Whole numbers are kept apart
from numbers with a point or an exponent. A field written twice keeps its first place and its
last value. Values nested deeper than a given limit are refused.

The reader works on characters and is given enough fuel for its input by `Json.read?`, which
hides it: every value uses up at least one character.
-/

namespace DeliTalk.Json

open Text

variable {R : Type} [Scalar R]

/-! ## 1. Blanks, words, texts -/

/-- The four characters that may stand between tokens. -/
def isGap (c : Char) : Bool := c = ' ' || c = '\t' || c = '\n' || c = '\r'

/-- The input without the gap in front. -/
def skip (cs : List Char) : List Char := cs.dropWhile isGap

/-- The input after an expected word. -/
def after? : List Char → List Char → Option (List Char)
  | [], cs => some cs
  | w :: word, c :: cs => if w = c then after? word cs else none
  | _ :: _, [] => none

/-- Four digits in base sixteen. -/
def fourHex? (w x y z : Char) : Option Nat := do
  return (((← hexDigit? w) * 16 + (← hexDigit? x)) * 16 + (← hexDigit? y)) * 16 + (← hexDigit? z)

/-- Whether a number is the first half of a character beyond the basic plane. -/
def isHigh (n : Nat) : Bool := 0xd800 ≤ n && n < 0xdc00

/-- Whether a number is the second half of a character beyond the basic plane. -/
def isLow (n : Nat) : Bool := 0xdc00 ≤ n && n < 0xe000

/-- The character two halves stand for. -/
def joinHalves (high low : Nat) : Char :=
  Char.ofNat (0x10000 + (high - 0xd800) * 0x400 + (low - 0xdc00))

/-- The character a one-letter escape stands for. -/
def shortEscape? : Char → Option Char
  | '"' => some '"'
  | '\\' => some '\\'
  | '/' => some '/'
  | 'b' => some '\x08'
  | 'f' => some '\x0c'
  | 'n' => some '\n'
  | 'r' => some '\r'
  | 't' => some '\t'
  | _ => none

/-- The rest of a text after its opening quote. Control characters have to be escaped, and the
halves of a character have to come in pairs. -/
def textBody : List Char → Option (List Char × List Char)
  | [] => none
  | '"' :: rest => some ([], rest)
  | '\\' :: 'u' :: w :: x :: y :: z :: rest =>
    match fourHex? w x y z with
    | none => none
    | some n =>
      if isHigh n then
        match rest with
        | '\\' :: 'u' :: w' :: x' :: y' :: z' :: more =>
          match fourHex? w' x' y' z' with
          | some m =>
            if isLow m then (textBody more).map fun p => (joinHalves n m :: p.1, p.2) else none
          | none => none
        | _ => none
      else if isLow n then none
      else (textBody rest).map fun p => (Char.ofNat n :: p.1, p.2)
  | '\\' :: c :: rest =>
    match shortEscape? c with
    | some x => (textBody rest).map fun p => (x :: p.1, p.2)
    | none => none
  | c :: rest =>
    if c.toNat < 0x20 ∨ c = '\\' then none
    else (textBody rest).map fun p => (c :: p.1, p.2)

/-! ## 2. Numbers -/

/-- Whether a character is a plain digit. -/
def isPlain (c : Char) : Bool := (plainDigit? c).isSome

/-- The number written by plain digits. -/
def natOf (digits : List Char) : Nat :=
  digits.foldl (fun n c => 10 * n + (plainDigit? c).getD 0) 0

/-- The digits in front, at least one. -/
def someDigits? (cs : List Char) : Option (List Char × List Char) :=
  let digits := cs.takeWhile isPlain
  if digits = [] then none else some (digits, cs.dropWhile isPlain)

/-- The digits before the point: no further digit follows a leading zero, and there are not too
many of them. -/
def wholeDigits? (cs : List Char) : Option (List Char × List Char) := do
  let (digits, rest) ← someDigits? cs
  if digits.head? = some '0' ∧ digits.length ≠ 1 then none
  else if Numeral.digitLimit < digits.length then none
  else some (digits, rest)

/-- The digits after the point, if there is a point. -/
def places? : List Char → Option (Option (List Char) × List Char)
  | '.' :: rest => (someDigits? rest).map fun p => (some p.1, p.2)
  | cs => some (none, cs)

/-- The power of ten, if one is written. -/
def power? : List Char → Option (Option Int × List Char)
  | c :: rest =>
    if c = 'e' ∨ c = 'E' then
      let (negative, body) := Numeral.sign rest
      (someDigits? body).map fun p =>
        (some (if negative then -(natOf p.1 : Int) else natOf p.1), p.2)
    else some (none, c :: rest)
  | [] => some (none, [])

/-- A number without its sign. -/
def unsigned? (negative : Bool) (cs : List Char) : Option (Doc R × List Char) := do
  let (whole, rest) ← wholeDigits? cs
  let (places, rest) ← places? rest
  let (power, rest) ← power? rest
  match places, power with
  | none, none =>
    let n := natOf whole
    return (.int (if negative then -(n : Int) else n), rest)
  | _, _ =>
    let digits := places.getD []
    let x : R := Numeral.ofDecimal (natOf (whole ++ digits)) digits.length (power.getD 0)
    return (.num (if negative then Scalar.ofInt (-1) * x else x), rest)

/-- A number, or the name of a quantity that is no finite number. -/
def number? : List Char → Option (Doc R × List Char)
  | '-' :: 'I' :: rest =>
    (after? ['n', 'f', 'i', 'n', 'i', 't', 'y'] rest).map fun r =>
      (.num (Scalar.ofInt (-1) * Scalar.infinity), r)
  | 'I' :: rest =>
    (after? ['n', 'f', 'i', 'n', 'i', 't', 'y'] rest).map fun r => (.num Scalar.infinity, r)
  | '-' :: 'N' :: rest | 'N' :: rest =>
    (after? ['a', 'N'] rest).map fun r => (.num Scalar.undefined, r)
  | '-' :: rest => unsigned? true rest
  | cs => unsigned? false cs

/-! ## 3. Values -/

mutual

/-- One value at the front of the input. -/
def value : (fuel depth : Nat) → List Char → Option (Doc R × List Char)
  | 0, _, _ => none
  | fuel + 1, depth, cs =>
    match cs with
    | [] => none
    | 'n' :: rest => (after? ['u', 'l', 'l'] rest).map fun r => (.null, r)
    | 't' :: rest => (after? ['r', 'u', 'e'] rest).map fun r => (.flag true, r)
    | 'f' :: rest => (after? ['a', 'l', 's', 'e'] rest).map fun r => (.flag false, r)
    | '"' :: rest => (textBody rest).map fun p => (.text (String.ofList p.1), p.2)
    | '[' :: rest =>
      match skip rest, depth with
      | ']' :: more, _ => some (.list [], more)
      | inner, depth + 1 => (items fuel depth inner).map fun p => (.list p.1, p.2)
      | _, 0 => none
    | '\x7b' :: rest =>
      match skip rest, depth with
      | '\x7d' :: more, _ => some (.map [], more)
      | inner, depth + 1 => (fields fuel depth [] inner).map fun p => (.map p.1, p.2)
      | _, 0 => none
    | c :: rest => number? (c :: rest)

/-- The values of a list, from the first one to the closing bracket. -/
def items : (fuel depth : Nat) → List Char → Option (List (Doc R) × List Char)
  | 0, _, _ => none
  | fuel + 1, depth, cs =>
    match value fuel depth cs with
    | none => none
    | some (d, rest) =>
      match skip rest with
      | ',' :: more => (items fuel depth (skip more)).map fun p => (d :: p.1, p.2)
      | ']' :: more => some ([d], more)
      | _ => none

/-- The fields of a map, from the first name to the closing brace, written into those read so
far. -/
def fields : (fuel depth : Nat) → List (String × Doc R) → List Char →
    Option (List (String × Doc R) × List Char)
  | 0, _, _, _ => none
  | fuel + 1, depth, done, cs =>
    match cs with
    | '"' :: name =>
      match textBody name with
      | none => none
      | some (key, rest) =>
        match skip rest with
        | ':' :: inner =>
          match value fuel depth (skip inner) with
          | none => none
          | some (d, rest) =>
            let done := Register.put (String.ofList key) d done
            match skip rest with
            | ',' :: more => fields fuel depth done (skip more)
            | '\x7d' :: more => some (done, more)
            | _ => none
        | _ => none
    | _ => none

end

/-- Reads a whole text as one value, nested at most as deep as the limit allows. -/
def read? (limit : Nat) (cs : List Char) : Option (Doc R) := do
  let (d, rest) ← value (2 * cs.length + 2) limit (skip cs)
  if skip rest = [] then some d else none

end DeliTalk.Json
