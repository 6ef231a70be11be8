import DeliTalk.Act
import DeliTalk.Scalar
import DeliTalk.Chance.Twister

/-!
# Chance: where every roll comes from

A source of chance is either a seeded generator or a stream of given draws, of which it counts
how many were used. Everything random in this library is an act on such a source.

* `Chance.draw`: the next number from zero to below one.
* `Chance.below`: a whole number below a bound; `below_of_fair` says so for every fair source.
* `roll`, `choose`, `shuffle`, `pickWeighted`, `sampleDistinct`: what machines do with it.
-/

namespace DeliTalk

/-- A seeded generator, or given draws with the number of those used. -/
inductive Chance (R : Type) where
  | seeded (state : Twister)
  | scripted (draws : Nat → R) (used : Nat)

namespace Chance

variable {R : Type} [Scalar R]

/-! ## 1. Draws -/

/-- How many rolls a seeded source tells apart: two to the power of 53. -/
def resolution : Nat := 9007199254740992

/-- The roll of a number below the resolution. -/
def ofFraction (k : Nat) : R := Scalar.ofNat k / Scalar.ofNat resolution

/-- The next number from zero to below one. -/
def draw : Chance R → R × Chance R
  | seeded t => let (k, t) := t.fraction; (ofFraction k, seeded t)
  | scripted draws used => (draws used, scripted draws (used + 1))

/-- Draws numbers of the given width until one is below the bound, at most as often as the fuel
allows; after that zero. -/
def reject (bound width : Nat) : Nat → Twister → Nat × Twister
  | 0, t => (0, t)
  | fuel + 1, t =>
    let (k, t) := t.bits width
    if k < bound then (k, t) else reject bound width fuel t

/-- A bound on the numbers tried for one whole number; each try succeeds at least every other
time. -/
def patience : Nat := 4096

/-- A whole number below a bound from a seeded source. A given draw is multiplied by the bound and
rounded down, so it stays below the bound only if it lies between zero and one; one that leads to
no finite number is a fault. -/
def below (bound : Nat) : Chance R → Except Fault Int × Chance R
  | seeded t =>
    let (k, t) := reject bound (bound.log2 + 1) patience t
    (.ok k, seeded t)
  | scripted draws used =>
    let x := draws used * Scalar.ofNat bound
    (if Scalar.isFinite x then .ok (Scalar.floor x) else .error .oversized,
      scripted draws (used + 1))

/-- Whether every whole number a source gives for a bound lies below the bound. Seeded sources are
fair; given draws are if multiplying and rounding never leads out of the bounds. -/
def Fair : Chance R → Prop
  | seeded _ => True
  | scripted draws _ => ∀ i bound, 0 < bound →
      Scalar.isFinite (draws i * Scalar.ofNat bound) = true ∧
        0 ≤ Scalar.floor (draws i * Scalar.ofNat bound) ∧
        Scalar.floor (draws i * Scalar.ofNat bound) < (bound : Int)

theorem reject_lt {bound width : Nat} (h : 0 < bound) :
    ∀ (fuel : Nat) (t : Twister), (reject bound width fuel t).1 < bound
  | 0, _ => h
  | fuel + 1, t => by
    unfold reject
    simp only
    split
    · assumption
    · exact reject_lt h fuel _

/-- **A fair source gives whole numbers below the bound.** -/
theorem below_of_fair {c : Chance R} (hc : c.Fair) {bound : Nat} (h : 0 < bound) :
    ∃ k : Nat, (c.below bound).1 = .ok (k : Int) ∧ k < bound := by
  cases c with
  | seeded t => exact ⟨_, rfl, reject_lt h patience t⟩
  | scripted draws used =>
    obtain ⟨hfinite, hle, hlt⟩ := hc used bound h
    refine ⟨(Scalar.floor (draws used * Scalar.ofNat bound)).toNat, ?_, by omega⟩
    simp only [below, hfinite, if_true]
    rw [Int.toNat_of_nonneg hle]

/-- A fair source stays fair. -/
theorem Fair.below {c : Chance R} (hc : c.Fair) (bound : Nat) : (c.below bound).2.Fair := by
  cases c with
  | seeded t => exact True.intro
  | scripted draws used => exact hc

theorem Fair.draw {c : Chance R} (hc : c.Fair) : c.draw.2.Fair := by
  cases c with
  | seeded t => exact True.intro
  | scripted draws used => exact hc

end Chance

/-! ## 2. Acts on a source -/

section Acts

variable {R : Type} [Scalar R] {α : Type}

/-- An act on a source of chance. -/
abbrev Luck (R α : Type) := Act (Chance R) α

/-- The next number from zero to below one. -/
def drawOne : Luck R R := Act.always Chance.draw

/-- A whole number below a bound. -/
def drawBelow (bound : Nat) : Luck R Int := Act.ofStep (Chance.below bound)

/-- One trial that succeeds with a given probability. -/
def roll (probability : R) : Luck R Bool := Act.always fun c =>
  let (x, c) := c.draw
  (decide (x < probability), c)

/-- A place in a list of some size, where a negative place is counted from the end; one beyond the
beginning stands for the beginning. -/
def indexIn (size : Nat) (place : Int) : Nat :=
  if 0 ≤ place then place.toNat else size - place.natAbs

/-- The value at a place of a list; a negative place is counted from the end. -/
def atPlace? (xs : List α) (place : Int) : Option α :=
  if -(xs.length : Int) ≤ place then xs[indexIn xs.length place]? else none

/-- The value at a place of a list, which has to be there. -/
def atPlace (xs : List α) (place : Int) : Luck R α :=
  match atPlace? xs place with
  | some x => return x
  | none => Act.fault .emptyChoice

/-- One of several values, each as likely as the others. -/
def choose (xs : List α) : Luck R α := do
  if xs.isEmpty then Act.fault .emptyChoice else atPlace xs (← drawBelow xs.length)

/-- A number between two bounds, the lower one included. -/
def between (low high : R) : Luck R R := do
  let x ← drawOne
  return low + (high - low) * x

/-- A list with the values at two places exchanged, both of which have to be there. -/
def exchange (xs : List α) (i : Nat) (place : Int) : Luck R (List α) := do
  let x ← atPlace xs i
  let y ← atPlace xs place
  return (xs.set i y).set (indexIn xs.length place) x

/-- Puts the values at places `1 … i` in random order, from the last place down. -/
def shuffleUpTo : Nat → List α → Luck R (List α)
  | 0, xs => return xs
  | i + 1, xs => do
    shuffleUpTo i (← exchange xs (i + 1) (← drawBelow (i + 2)))

/-- A list in random order. -/
def shuffle (xs : List α) : Luck R (List α) := shuffleUpTo (xs.length - 1) xs

/-- The running totals of a list of weights. -/
def runningTotals : List R → List R
  | [] => []
  | w :: rest => w :: go w rest
where
  /-- The running totals of further weights on top of a total. -/
  go (total : R) : List R → List R
    | [] => []
    | w :: rest => (total + w) :: go (total + w) rest

/-- Halves a range of places until one is left: the first one whose total is above a mark, or the
end of the range, if the totals never decrease. -/
def placeAbove (mark : R) (totals : List R) (low high : Nat) : Nat :=
  if low < high then
    let middle := (low + high) / 2
    if totals[middle]?.any fun total => decide (mark < total) then
      placeAbove mark totals low middle
    else placeAbove mark totals (middle + 1) high
  else low
termination_by high - low

/-- One of several values, as likely as its weight says. -/
def pickWeighted (weight : α → R) (xs : List α) : Luck R α := do
  let totals := runningTotals (xs.map weight)
  match totals.getLast? with
  | none => Act.fault .emptyChoice
  | some total =>
    if total ≤ (0.0 : R) then Act.fault .weightless
    else if !Scalar.isFinite total then Act.fault .boundless
    else
      let x ← drawOne
      match xs[placeAbove (x * total) totals 0 (xs.length - 1)]? with
      | some value => return value
      | none => Act.fault .emptyChoice

/-- Takes values out of a pool, so many of which are left, and fills each gap with the last value
left. -/
def samplePool : (count left : Nat) → List α → Luck R (List α)
  | 0, _, _ => return []
  | k + 1, left, pool => do
    let place ← drawBelow left
    let x ← atPlace pool place
    let last ← atPlace pool (left - 1 : Nat)
    return x :: (← samplePool k (left - 1) (pool.set (indexIn pool.length place) last))

/-- A place not taken yet, at most as many tries as the fuel allows. -/
def freePlace (bound : Nat) (taken : List Int) : Nat → Luck R Int
  | 0 => return 0
  | fuel + 1 => do
    let j ← drawBelow bound
    if j ∈ taken then freePlace bound taken fuel else return j

/-- Values at places that differ from each other and from those taken. -/
def sampleApart (xs : List α) : Nat → List Int → Luck R (List α)
  | 0, _ => return []
  | k + 1, taken => do
    let j ← freePlace xs.length taken Chance.patience
    let x ← atPlace xs j
    return x :: (← sampleApart xs k (j :: taken))

/-- The largest population that is sampled from a pool. -/
def poolLimit : Nat := 21

/-- A few values from different places of a list. -/
def sampleDistinct (k : Nat) (xs : List α) : Luck R (List α) := do
  if xs.length ≤ poolLimit then samplePool k xs.length xs else sampleApart xs k []

end Acts

end DeliTalk
