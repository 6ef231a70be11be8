import DeliTalk.Decimal.Binary64

/-!
# A double with a fixed number of decimal places

The digits are those of the exact value rounded to the nearest, a half going to the even digit.
-/

namespace DeliTalk.Decimal

/-- A text filled up with zeros on the left. -/
def padLeft (width : Nat) (digits : String) : String :=
  String.ofList (List.replicate (width - digits.length) '0') ++ digits

/-- Whole units of a decimal place, written with a point that many digits from the right. -/
def pointed (places units : Nat) : String :=
  let scale := Nat.pow 10 places
  toString (units / scale) ++ "." ++ padLeft places (toString (units % scale))

/-- A double with the given number of decimal places. -/
def fixed (places : Nat) (x : Float) : String :=
  match Dyadic.ofFloat? x with
  | some d => (if d.negative then "-" else "") ++ pointed places (d.units places)
  | none => if x.isNaN then "nan" else if x < 0.0 then "-inf" else "inf"

end DeliTalk.Decimal
