/-!
# Likeness of two sequences

How alike two sequences of names are: the share of names that lie in matching blocks. The longest
matching block is found first, then the parts before it and after it are matched among
themselves. In a long second sequence, names that occur very often do not start a block; blocks
still grow over them.

* `longest`: the longest block, the earliest in the first sequence and then in the second.
* `matched`: the number of names in matching blocks.
* `likeness`: twice that number over the lengths of both, one if both are empty.
-/

namespace DeliTalk.Likeness

/-- A block: where it starts in the first and in the second sequence, and how long it is. -/
structure Block where
  left : Nat
  right : Nat
  size : Nat
deriving Repr, DecidableEq

/-- A name of the second sequence, and whether blocks may be built from it. -/
abbrev Marked := String × Bool

/-- The length from which on frequent names are passed over. -/
def crowd : Nat := 200

/-- The second sequence, with its very frequent names marked. -/
def mark (b : List String) : List Marked :=
  b.map fun x => (x, b.length < crowd || b.count x ≤ b.length / 100 + 1)

/-- The lengths of the runs that end at a name of the first sequence and at each name of the
second one, from the lengths for the name before. -/
def nextRow (x : String) : Nat → List Marked → List Nat → List Nat
  | _, [], _ => []
  | before, (y, usable) :: b, row =>
    (if usable && y == x then before + 1 else 0) :: nextRow x (row.headD 0) b row.tail

/-- The longest block known after looking at a row. -/
def bestInRow (i : Nat) : Nat → List Nat → Block → Block
  | _, [], best => best
  | j, k :: row, best =>
    bestInRow i (j + 1) row (if best.size < k then ⟨i + 1 - k, j + 1 - k, k⟩ else best)

/-- The longest block known after looking at the rest of the first sequence. -/
def bestFrom (b : List Marked) : Nat → List Nat → Block → List String → Block
  | _, _, best, [] => best
  | i, row, best, x :: a =>
    let row := nextRow x 0 b row
    bestFrom b (i + 1) row (bestInRow i 0 row best) a

/-- The number of names two sequences start with in common. -/
def agreement : List String → List String → Nat
  | x :: a, y :: b => if x = y then agreement a b + 1 else 0
  | _, _ => 0

/-- A block together with the equal names around it. -/
def grow (a : List String) (b : List Marked) (block : Block) : Block :=
  let names := b.map (·.1)
  let back := agreement (a.take block.left).reverse (names.take block.right).reverse
  let forth := agreement (a.drop (block.left + block.size)) (names.drop (block.right + block.size))
  ⟨block.left - back, block.right - back, back + block.size + forth⟩

/-- The longest matching block. -/
def longest (a : List String) (b : List Marked) : Block :=
  grow a b (bestFrom b 0 [] ⟨0, 0, 0⟩ a)

/-- The number of names in matching blocks. -/
def matched (a : List String) (b : List Marked) : Nat :=
  match longest a b with
  | ⟨left, right, size⟩ =>
    if 0 < size ∧ left + size ≤ a.length then
      matched (a.take left) (b.take right) + size +
        matched (a.drop (left + size)) (b.drop (right + size))
    else 0
termination_by a.length
decreasing_by
  · simp only [List.length_take]; omega
  · simp only [List.length_drop]; omega

/-- How alike two sequences are, from zero to one. -/
def likeness (a b : List String) : Rat :=
  if a.length + b.length = 0 then 1
  else (2 * matched a (mark b) : Nat) / (a.length + b.length : Nat)

end DeliTalk.Likeness
