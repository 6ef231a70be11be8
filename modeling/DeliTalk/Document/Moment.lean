import DeliTalk.Document.Reading

/-!
# Moments in time

A moment is written as a day, alone or with a time of the day and an offset, or as the time passed
since the start of 1970. A reader only says whether there is such a moment; nothing of it is
kept.

* `Moment.isStamp`: whether a number is the time passed until some moment.
* `Doc.asTime`: a moment in any of its forms.
-/

namespace DeliTalk

namespace Moment

/-! ## 1. Time passed -/

/-- The largest count of seconds; a count farther from zero is one of milliseconds. -/
def secondsLimit : Int := 20000000000

/-- The seconds from the start of 1970 back to the start of 1600, as a negative count. -/
def firstSecond : Int := -11676096000

/-- The seconds from the start of 1970 to the last one of the year 9999. -/
def lastSecond : Int := 253402300799

/-- Whether a number is the time passed until a moment from 1600 on, in seconds, or in
milliseconds if it is large. -/
def isStamp (n : Int) : Bool :=
  let seconds := if (n.natAbs : Int) ≤ secondsLimit then n else n.fdiv 1000
  firstSecond ≤ seconds && seconds ≤ lastSecond

/-- The largest integer that is not above the decimal number a text writes: digits, and perhaps a
point with or without further ones. -/
def stamp? (cs : List Char) : Option Int := do
  let (negative, body) := Numeral.sign cs
  let whole : Int ← (Numeral.plainNat? (body.takeWhile (· ≠ '.'))).map Int.ofNat
  let places := (body.dropWhile (· ≠ '.')).drop 1
  if !places.all fun c => (Text.plainDigit? c).isSome then none
  else if !negative then return whole
  else if places.all (· = '0') then return -whole
  else return -whole - 1

/-! ## 2. Days and times of the day -/

/-- Takes a number of exactly so many plain digits from the front. -/
def digits? (width : Nat) (cs : List Char) : Option (Nat × List Char) := do
  if (cs.take width).length < width then none
  else return (← Numeral.plainNat? (cs.take width), cs.drop width)

/-- Takes a character of some from the front. -/
def mark? (marks : List Char) : List Char → Option (List Char)
  | c :: rest => if c ∈ marks then some rest else none
  | [] => none

/-- The number of days of a month; zero if there is no such month. -/
def daysIn (year month : Nat) : Nat :=
  let isLeap := year % 4 = 0 ∧ (year % 100 ≠ 0 ∨ year % 400 = 0)
  [31, if isLeap then 29 else 28, 31, 30, 31, 30, 31, 31, 30, 31, 30, 31].getD (month - 1) 0

/-- Takes a day from the front: its year, and what follows. -/
def day? (cs : List Char) : Option (Nat × List Char) := do
  let (year, cs) ← digits? 4 cs
  let (month, cs) ← digits? 2 (← mark? ['-'] cs)
  let (day, cs) ← digits? 2 (← mark? ['-'] cs)
  if 0 < month ∧ 0 < day ∧ day ≤ daysIn year month then some (year, cs) else none

/-- Takes a number of two digits below a bound from the front. -/
def twoBelow? (bound : Nat) (cs : List Char) : Option (List Char) := do
  let (n, rest) ← digits? 2 cs
  if n < bound then some rest else none

/-- Takes the parts of a second from the front, which are at least one digit after their mark. -/
def partsOfSecond? (cs : List Char) : Option (List Char) :=
  match mark? ['.', ','] cs with
  | none => some cs
  | some rest =>
    let isPlain : Char → Bool := fun c => (Text.plainDigit? c).isSome
    if (rest.takeWhile isPlain).isEmpty then none else some (rest.dropWhile isPlain)

/-- Takes a time of the day from the front: hours and minutes, perhaps seconds. -/
def clock? (cs : List Char) : Option (List Char) := do
  let cs ← twoBelow? 60 (← mark? [':'] (← twoBelow? 24 cs))
  match mark? [':'] cs with
  | none => some cs
  | some rest => partsOfSecond? (← twoBelow? 60 rest)

/-- Whether a text is nothing or an offset. The minus sign has two forms. -/
def isOffset : List Char → Bool
  | [] | ['Z'] | ['z'] => true
  | cs =>
    match mark? ['+', '-', '\u2212'] cs with
    | none => false
    | some rest =>
      match twoBelow? 24 rest with
      | none => false
      | some rest => twoBelow? 60 ((mark? [':'] rest).getD rest) = some []

/-- Whether a text is nothing, or a time of the day with or without an offset after the mark that
parts it from a day. -/
def isDayTime (cs : List Char) : Bool :=
  cs.isEmpty ||
    match (mark? ['T', 't', ' ', '_'] cs).bind clock? with
    | some rest => isOffset rest
    | none => false

/-- A moment written as a text. No moment lies in a year zero. -/
def ofText (s : String) : Check Unit :=
  match day? s.toList with
  | some (year, rest) =>
    if !isDayTime rest then .fail .unreadableTime
    else if year = 0 then .fail .impossibleTime
    else .sound ()
  | none =>
    if ((stamp? s.toList).filter isStamp).isSome then .sound () else .fail .unreadableTime

end Moment

variable {R : Type}

/-- A moment. -/
def Doc.asTime [Scalar R] : Doc R → Check Unit
  | text s => Moment.ofText s
  | int n =>
    if !Scalar.isFinite (Scalar.ofInt n : R) then .fail .notTime
    else if Moment.isStamp n then .sound ()
    else .fail .impossibleTime
  | num x =>
    if Scalar.isFinite x && Moment.isStamp (Scalar.floor x) then .sound ()
    else .fail .impossibleTime
  | _ => .fail .notTime

end DeliTalk
