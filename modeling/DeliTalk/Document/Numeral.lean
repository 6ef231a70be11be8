import DeliTalk.Scalar
import DeliTalk.Text.Glyph

/-!
# Numbers written as text

A text may stand for a number where a number is asked for. Blanks around it do not count, a sign
may come first, and single underscores may stand between digits.

* `integer?`: a whole number, also with a point and zeros after it.
* `scalar?`: a decimal number with an optional exponent, or the name of an infinite or undefined
  quantity.
* `wholeNumber`: a whole number in the digits of any script, or why there is none.
-/

namespace DeliTalk.Numeral

open Text

/-- Whether a character is dropped at the ends of a number. -/
def isMargin (c : Char) : Bool := isBlank c && !(0x1c ≤ c.toNat && c.toNat ≤ 0x1f)

/-- A text without the margins at its two ends. -/
def bare (cs : List Char) : List Char :=
  ((cs.dropWhile isMargin).reverse.dropWhile isMargin).reverse

/-- A number written in plain digits. -/
def plainNat? (cs : List Char) : Option Nat :=
  if cs = [] then none
  else cs.foldl (fun acc c => do return 10 * (← acc) + (← plainDigit? c)) (some 0)

/-- The most digits a whole number is read from. -/
def digitLimit : Nat := 4300

/-- Whether two underscores stand next to each other. -/
def hasDoubled : List Char → Bool
  | '_' :: '_' :: _ => true
  | _ :: rest => hasDoubled rest
  | [] => false

/-- Takes underscores out where they only separate; otherwise leaves the text alone. -/
def joined (cs : List Char) : List Char :=
  if cs.head? = some '_' ∨ cs.getLast? = some '_' ∨ hasDoubled cs then cs
  else cs.filter (· ≠ '_')

/-- Splits off a leading sign; true means minus. -/
def sign : List Char → Bool × List Char
  | '-' :: rest => (true, rest)
  | '+' :: rest => (false, rest)
  | cs => (false, cs)

/-! ## 1. Whole numbers -/

/-- Drops a point that is followed by zeros, at least one, and nothing else. -/
def withoutZeroPlaces (cs : List Char) : List Char :=
  match cs.dropWhile (· ≠ '.') with
  | '.' :: places => if places ≠ [] ∧ places.all (· = '0') then cs.takeWhile (· ≠ '.') else cs
  | _ => cs

/-- What follows leading zeros, the last character of which is given. Underscores may stand among
the zeros, any number of them; a minus sign may follow them; before a point and at the end one
character of them stays. -/
def afterZeros? (last : Char) : List Char → Option (List Char)
  | [] => some [last]
  | c :: rest =>
    if c = '0' ∨ c = '_' then afterZeros? c rest
    else if c = '.' then some (last :: c :: rest)
    else if c = '-' ∨ (plainDigit? c).isSome then some (c :: rest)
    else none

/-- A number without a plus sign and without leading zeros. It starts with a digit or with a minus
sign. -/
def unpadded? : List Char → Option (List Char)
  | '+' :: '-' :: _ => none
  | '+' :: cs => start? cs
  | cs => start? cs
where
  /-- A number without leading zeros. -/
  start? : List Char → Option (List Char)
    | [] => none
    | c :: rest =>
      if c = '0' then afterZeros? c rest
      else if c = '-' ∨ (plainDigit? c).isSome then some (c :: rest)
      else none

/-- The number some plain digits write, at most as many as are allowed and with no zero in
front. -/
def strictNat? (digits : List Char) : Option Nat :=
  if digitLimit < digits.length ∨ (digits.head? = some '0' ∧ digits.length ≠ 1) then none
  else plainNat? digits

/-- The integer a text stands for. -/
def integer? (s : String) : Option Int := do
  match joined (withoutZeroPlaces (← unpadded? (bare s.toList))) with
  | '-' :: digits => return -((← strictNat? digits : Nat) : Int)
  | digits => return (← strictNat? digits : Nat)

/-- Why a text is not read as a whole number: it is none, or it has too many digits. -/
inductive Unread where
  | noNumber (text : String)
  | overlong (digits : Nat)
deriving Repr, DecidableEq

/-- The whole number a text in the digits of any script stands for, with an optional sign. -/
def wholeNumber (s : String) : Except Unread Int :=
  let (negative, body) := sign (bare s.toList)
  let run := ((body.filter (· ≠ '_')).takeWhile fun c => (digitValue? c).isSome).length
  if digitLimit < run then .error (.overlong run)
  else if joined body = [] then .error (.noNumber s)
  else
    match natOfDigits? (joined body) with
    | some n => .ok (if negative then -(n : Int) else n)
    | none => .error (.noNumber s)

/-! ## 2. Scalars -/

/-- The names of quantities that are no finite number. -/
def named? {R : Type} [Scalar R] (cs : List Char) : Option R :=
  let name := String.ofList (cs.map Char.toLower)
  if name = "inf" ∨ name = "infinity" then some Scalar.infinity
  else if name = "nan" then some Scalar.undefined
  else none

/-- A scalar from the digits around its point and a power of ten. A power beyond twenty thousand
is taken for twenty thousand. -/
def ofDecimal {R : Type} [Scalar R] (digits : Nat) (places : Nat) (exponent : Int) : R :=
  let shift := max (-20000) (min 20000 (exponent - places))
  OfScientific.ofScientific digits (decide (shift < 0)) shift.natAbs

/-- The exponent after a mantissa: absent, or a letter and a signed whole number. -/
def exponent? : List Char → Option Int
  | [] => some 0
  | c :: rest =>
    if c = 'e' ∨ c = 'E' then
      let (negative, body) := sign rest
      (plainNat? body).map fun n => if negative then -(n : Int) else n
    else none

/-- The unsigned decimal number a text stands for. -/
def unsigned? {R : Type} [Scalar R] (cs : List Char) : Option R := do
  let isPlain : Char → Bool := fun c => (plainDigit? c).isSome
  let whole := cs.takeWhile isPlain
  let rest := cs.dropWhile isPlain
  let (places, tail) := match rest with
    | '.' :: more => (more.takeWhile isPlain, more.dropWhile isPlain)
    | _ => ([], rest)
  let digits ← plainNat? (whole ++ places)
  let exponent ← exponent? tail
  return ofDecimal digits places.length exponent

/-- The scalar a run of characters stands for. -/
def signed? {R : Type} [Scalar R] (cs : List Char) : Option R := do
  let (negative, body) := sign cs
  let x ← (named? body <|> unsigned? body)
  return if negative then Scalar.ofInt (-1) * x else x

/-- The scalar a text stands for. -/
def scalar? {R : Type} [Scalar R] (s : String) : Option R :=
  signed? (bare s.toList) <|> signed? (joined s.toList)

end DeliTalk.Numeral
