import DeliTalk.Decimal.Fixed

/-!
# The fewest digits that read back

A double is written with as few digits as tell it apart from every other double, and with those
digits that come nearest to it. Numbers of moderate size are written with a point, the others
with a power of ten.

* `fewestDigits`: the digits and the place of the last one.
* `shortest`: the text.
-/

namespace DeliTalk.Decimal

/-- Digits of a number: its value is `digits · 10 ^ (-places)`. -/
structure Digits where
  digits : Nat
  places : Int
deriving Repr, DecidableEq

namespace Digits

/-- The double nearest to a number given by its digits. -/
def toFloat (d : Digits) : Float :=
  Float.ofScientific d.digits (decide (0 ≤ d.places)) d.places.natAbs

/-- The power of ten above the first digit. -/
def point (d : Digits) : Int := ((toString d.digits).length : Int) - d.places

end Digits

namespace Dyadic

/-- The magnitude times a power of ten, as a quotient. -/
def scaled (d : Dyadic) (places : Int) : Nat × Nat :=
  let (num, den) := d.quotient
  let power := Nat.pow 10 places.natAbs
  if 0 ≤ places then (num * power, den) else (num, den * power)

/-- More decimal places than any double needs before its first digit. -/
def margin : Nat := 330

/-- The power of ten above the first digit of a magnitude that is not zero. -/
def point (d : Dyadic) : Int :=
  let (num, den) := d.scaled margin
  ((toString (num / den)).length : Int) - margin

/-- The two neighbours of a magnitude that have the given number of digits, the nearer one
first. -/
def neighbours (d : Dyadic) (count : Nat) : List Digits :=
  let places := (count : Int) - d.point
  let (num, den) := d.scaled places
  let near := roundQuotient num den
  let far := if near = num / den then near + 1 else num / den
  [⟨near, places⟩, ⟨far, places⟩]

/-- The fewest digits from a count on that read back as the given double; at most seventeen. -/
def fewestFrom (d : Dyadic) (x : Float) : (fuel count : Nat) → Digits
  | 0, count => ⟨roundQuotient (d.scaled (count - d.point)).1 (d.scaled (count - d.point)).2,
      count - d.point⟩
  | fuel + 1, count =>
    match (d.neighbours count).find? fun n => n.toFloat == x with
    | some digits => digits
    | none => fewestFrom d x fuel (count + 1)

end Dyadic

/-- The fewest digits that read back as the magnitude of a double. -/
def fewestDigits (d : Dyadic) (x : Float) : Digits := d.fewestFrom x.abs 16 1

/-- Zeros in a row. -/
def zeros (n : Nat) : String := String.ofList (List.replicate n '0')

/-- Digits without the zeros at their end. -/
def withoutTail (digits : List Char) : List Char :=
  match (digits.reverse.dropWhile (· = '0')).reverse with
  | [] => ['0']
  | kept => kept

/-- Digits with a point among, before or behind them. -/
def positional (digits : List Char) (point : Int) : String :=
  let text := String.ofList digits
  if point ≤ 0 then "0." ++ zeros point.natAbs ++ text
  else if (digits.length : Int) ≤ point then text ++ zeros (point.toNat - digits.length) ++ ".0"
  else String.ofList (digits.take point.toNat) ++ "." ++ String.ofList (digits.drop point.toNat)

/-- Digits with a point behind the first one, and a power of ten of at least two digits. -/
def exponential (digits : List Char) (point : Int) : String :=
  let exponent := point - 1
  let mantissa := match digits with
    | first :: second :: rest => String.ofList (first :: '.' :: second :: rest)
    | _ => String.ofList digits
  mantissa ++ "e" ++ (if exponent < 0 then "-" else "+") ++
    padLeft 2 (toString exponent.natAbs)

/-- The text of a double. Powers of ten from minus four to fifteen are written with a point. -/
def shortest (x : Float) : String :=
  match Dyadic.ofFloat? x with
  | none => if x.isNaN then "NaN" else if x < 0.0 then "-Infinity" else "Infinity"
  | some d =>
    let sign := if d.negative then "-" else ""
    if d.magnitude = 0 then sign ++ "0.0"
    else
      let best := fewestDigits d x
      let digits := withoutTail (toString best.digits).toList
      sign ++ (if -4 < best.point ∧ best.point ≤ 16 then positional digits best.point
        else exponential digits best.point)

end DeliTalk.Decimal
