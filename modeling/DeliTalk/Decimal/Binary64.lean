import DeliTalk.Scalar

/-!
# Doubles, read exactly

A finite double is a whole number times a power of two. Rounding a double to decimal places, or
down to a whole number, is done on that exact value and never on a second approximation of it.
This makes the doubles an instance of `Scalar`.
-/

namespace DeliTalk.Decimal

/-- The whole number nearest to `num / den`; a half goes to the even neighbour. -/
def roundQuotient (num den : Nat) : Nat :=
  let quotient := num / den
  let twice := 2 * (num % den)
  if twice < den then quotient
  else if den < twice then quotient + 1
  else if quotient % 2 = 0 then quotient else quotient + 1

/-- A sign, a whole number and a power of two: the value is `± magnitude · 2 ^ exponent`. -/
structure Dyadic where
  negative : Bool
  magnitude : Nat
  exponent : Int
deriving Repr, DecidableEq

namespace Dyadic

/-- The leading digit of a normal double, which is not written: two to the power of 52. -/
def hidden : Nat := 4503599627370496

/-- The exact value of a double; none when it is infinite or undefined. -/
def ofFloat? (x : Float) : Option Dyadic :=
  let bits : Nat := x.toBits.toNat
  let negative := bits >>> 63 = 1
  let biased : Nat := (bits >>> 52) % 2048
  let fraction : Nat := bits % hidden
  if biased = 2047 then none
  else if biased = 0 then some ⟨negative, fraction, -1074⟩
  else some ⟨negative, hidden + fraction, (biased : Int) - 1075⟩

/-- The magnitude as a quotient of whole numbers. -/
def quotient (d : Dyadic) : Nat × Nat :=
  if d.exponent < 0 then (d.magnitude, Nat.pow 2 d.exponent.natAbs)
  else (d.magnitude * Nat.pow 2 d.exponent.natAbs, 1)

/-- The magnitude in units of the given decimal place, rounded to the nearest. -/
def units (d : Dyadic) (places : Nat) : Nat :=
  roundQuotient (d.quotient.1 * Nat.pow 10 places) d.quotient.2

/-- The value in units of the given decimal place, rounded to the nearest. -/
def nearest (d : Dyadic) (places : Nat) : Int :=
  if d.negative then -(d.units places : Int) else d.units places

/-- The largest whole number that is not above the value. -/
def floor (d : Dyadic) : Int :=
  if d.negative then Int.fdiv (-(d.quotient.1 : Int)) d.quotient.2
  else (d.quotient.1 / d.quotient.2 : Nat)

end Dyadic

/-- The double nearest to an integer. -/
def doubleOfInt (n : Int) : Float :=
  let magnitude := Float.ofScientific n.natAbs false 0
  if n < 0 then -magnitude else magnitude

instance : Scalar Float where
  decLt := inferInstance
  decLe := inferInstance
  ofInt := doubleOfInt
  ln := Float.log
  isFinite x := (Dyadic.ofFloat? x).isSome
  floor x := ((Dyadic.ofFloat? x).map Dyadic.floor).getD 0
  nearest places x := ((Dyadic.ofFloat? x).map (·.nearest places)).getD 0
  infinity := 1.0 / 0.0
  undefined := 0.0 / 0.0

end DeliTalk.Decimal
