/-!
# Scalar: the numbers dispositions, skills and chances are measured in

Everything in this library that weighs, rolls or learns does so over an arbitrary type of
scalars. A machine runs on doubles; a statement about it may be read over the real numbers. The
class below lists what the rules need and nothing else.

* `Scalar`: arithmetic, comparison, the natural logarithm, and rounding to whole numbers.
* `Scalar.least`, `Scalar.greatest`: the smaller and the larger of two scalars, where the first
  one wins a tie.
* `Scalar.same`: two scalars neither of which is below the other.
* `Scalar.whole?`: the integer a scalar stands for, if it is one.
-/

namespace DeliTalk

/-- Numbers with arithmetic, an order that can be tested, a logarithm and rounding. -/
class Scalar (R : Type) extends Add R, Sub R, Mul R, Div R, LT R, LE R, OfScientific R where
  /-- The strict order can be tested. -/
  decLt : DecidableLT R
  /-- The order can be tested. -/
  decLe : DecidableLE R
  /-- The scalar that stands for an integer. -/
  ofInt : Int → R
  /-- The natural logarithm. -/
  ln : R → R
  /-- Whether a scalar is a number of finite size. -/
  isFinite : R → Bool
  /-- The largest integer that is not above a finite scalar. -/
  floor : R → Int
  /-- The integer nearest to a finite scalar times a power of ten; a half goes to the even
  neighbour. -/
  nearest : Nat → R → Int
  /-- What an infinite quantity is written as. -/
  infinity : R
  /-- What an undefined quantity is written as. -/
  undefined : R

attribute [reducible, instance] Scalar.decLt Scalar.decLe

namespace Scalar

variable {R : Type} [Scalar R]

/-- The scalar that stands for a natural number. -/
def ofNat (n : Nat) : R := ofInt n

/-- The scalar for a ratio. -/
def ofRat (q : Rat) : R := ofInt q.num / ofNat q.den

/-- The smaller of two scalars; the first one on a tie. -/
def least (x y : R) : R := if y < x then y else x

/-- The larger of two scalars; the first one on a tie. -/
def greatest (x y : R) : R := if x < y then y else x

/-- Two scalars that stand for the same number. -/
def same (x y : R) : Bool := x ≤ y && y ≤ x

/-- The integer a scalar stands for, if it stands for one. -/
def whole? (x : R) : Option Int :=
  if isFinite x && same (ofInt (floor x)) x then some (floor x) else none

end Scalar

end DeliTalk
