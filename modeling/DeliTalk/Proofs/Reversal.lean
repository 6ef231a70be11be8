import DeliTalk.Proofs.Incidents

/-!
# The opposite of the opposite

The opposite of taking something off is putting it on top, and the opposite of putting it on,
wherever that was, is taking it off. So the opposite of the opposite of a removal is the removal
itself, while that of an addition has forgotten the place: it puts the ingredient on top. That
comes to the same only where nothing else lies above the place, or there is nothing to put on.

* `Operation.Wraps`: an operation said to last any number of times over.
* `Operation.Wraps.reverse_reverse`, `Operation.Wraps.apply_reverse_reverse`: what two reversals
  come to.
* `Operation.applyAdd_same_top`: when a place is as good as the top.
* `Operation.reversed_twice`: when an operation reversed twice does what it did before.
-/

namespace DeliTalk

/-! ## 1. What two reversals come to -/

namespace Operation

/-- An operation, or the same said to last, any number of times over. -/
inductive Wraps (y : Operation) : Operation → Prop where
  | alone : Wraps y y
  | lasting {x : Operation} (inner : Wraps y x) : Wraps y (.persist x)

namespace Wraps

variable {x y : Operation} {i : Ingredient} {r : Relative}

/-- What is said to last is reversed inside. -/
theorem reverse (h : Wraps y x) : Wraps y.reverse x.reverse := by
  induction h with
  | alone => exact .alone
  | lasting _ ih => exact .lasting ih

/-- What is said to last does what is inside. -/
theorem apply {R : Type} [Scalar R] (h : Wraps y x) (sp : Sandwich × Personality R) :
    x.apply sp = y.apply sp := by
  induction h with
  | alone => rfl
  | lasting _ ih => exact ih

/-- The opposite of the opposite of a removal is the removal. -/
theorem reverse_reverse (h : Wraps (.remove i) x) : x.reverse.reverse = x := by
  induction h with
  | alone => rfl
  | lasting _ ih => exact congrArg persist ih

/-- The opposite of the opposite of an addition puts the ingredient on top. -/
theorem apply_reverse_reverse {R : Type} [Scalar R] (h : Wraps (.add i r) x)
    (sp : Sandwich × Personality R) :
    x.reverse.reverse.apply sp = (Operation.add i .top).apply sp := h.reverse.reverse.apply sp

end Wraps

/-! ## 2. Places that are as good as the top -/

/-- Something before a list is the same as after it if the list holds nothing else. -/
theorem cons_eq_append_singleton {α : Type} {a : α} {l : List α} :
    a :: l = l ++ [a] ↔ ∀ b ∈ l, b = a := by
  induction l with
  | nil => simp
  | cons b l ih =>
    rw [List.cons_append, List.cons.injEq, List.forall_mem_cons]
    constructor
    · rintro ⟨rfl, h⟩
      exact ⟨rfl, ih.mp h⟩
    · rintro ⟨rfl, h⟩
      exact ⟨rfl, ih.mpr h⟩

/-- What is put in at a place lies between what was below the place and what was above it. -/
theorem insertIdx_eq_append {α : Type} {a : α} : ∀ {l : List α} {k : Nat}, k ≤ l.length →
    l.insertIdx k a = l.take k ++ a :: l.drop k
  | l, 0, _ => by rw [List.insertIdx_zero, List.take_zero, List.drop_zero, List.nil_append]
  | b :: l, k + 1, h => by
    rw [List.insertIdx_succ_cons, insertIdx_eq_append (Nat.le_of_succ_le_succ h)]
    rfl

/-- Something put in at a place looks as if it were at the end if the rest looks like it. -/
theorem map_insertIdx_eq_append {α β : Type} (f : α → β) {l : List α} {a : α} {k : Nat}
    (h : k ≤ l.length) :
    (l.insertIdx k a).map f = (l ++ [a]).map f ↔ ∀ b ∈ l.drop k, f b = f a := by
  have hend : l ++ [a] = l.take k ++ (l.drop k ++ [a]) := by
    rw [← List.append_assoc, List.take_append_drop]
  rw [insertIdx_eq_append h, hend, List.map_append, List.map_append, List.append_cancel_left_eq,
    List.map_cons, List.map_append, List.map_singleton, cons_eq_append_singleton,
    List.forall_mem_map]

/-! ## 3. An addition reversed twice -/

variable {R : Type} {i : Ingredient} {s : Sandwich} {p : Personality R}

/-- What cannot be taken from the pantry changes neither the sandwich nor the pantry. -/
theorem applyAdd_of_lacking (r : Relative) (h : ¬ p.Stocks i.name 1) :
    (applyAdd i r s p).1 = s ∧ (applyAdd i r s p).2.inventory = p.inventory := by
  unfold applyAdd
  split
  · exact ⟨rfl, rfl⟩
  · simp only [Personality.take_of_lacking h, true_and]
    rw [p.refuse_eq]

/-- What can be taken from the pantry goes to its place. -/
theorem applyAdd_of_place {r : Relative} {place : Nat}
    (hplace : insertionPoint r s.ingredients = some place) (h : p.Stocks i.name 1) :
    applyAdd i r s p =
      ({ s with ingredients := s.ingredients.insertIdx place i.leaf }, (p.take i.name).2) := by
  obtain ⟨q, htake, -⟩ := p.take_spec h
  unfold applyAdd
  simp only [hplace, htake]

/-- **An addition somewhere is as good as one on top** if there is nothing to add, or its place is
there and nothing but the same ingredient lies above it. -/
theorem applyAdd_same_top (r : Relative) :
    ((applyAdd i .top s p).1.same (applyAdd i r s p).1 = true ∧
      (applyAdd i .top s p).2.inventory = (applyAdd i r s p).2.inventory) ↔
    (¬ p.Stocks i.name 1 ∨ ∃ place, insertionPoint r s.ingredients = some place ∧
      ∀ j ∈ s.ingredients.drop place, j.name = i.name) := by
  by_cases hstock : p.Stocks i.name 1
  · have htop : insertionPoint .top s.ingredients = some s.ingredients.length := rfl
    rw [applyAdd_of_place htop hstock, List.insertIdx_length_self]
    cases hplace : insertionPoint r s.ingredients with
    | none =>
      -- without a place nothing is added, but there is one on top
      have hsame : applyAdd i r s p = (s, p) := by
        unfold applyAdd
        rw [hplace]
      rw [hsame]
      refine iff_of_false (fun h => ?_) (by simp [hstock])
      have hnames := h.1
      simp [Sandwich.same, Sandwich.names] at hnames
    | some place =>
      rw [applyAdd_of_place hplace hstock]
      have hlook := map_insertIdx_eq_append (·.name) (a := i.leaf) (insertionPoint_le hplace)
      simp only [Sandwich.same, Sandwich.names, hstock, beq_self_eq_true, Bool.and_true, and_true,
        beq_iff_eq, not_true_eq_false, false_or, Option.some.injEq, exists_eq_left']
      exact eq_comm.trans hlook
  · obtain ⟨htop, hpantry⟩ := applyAdd_of_lacking (s := s) .top hstock
    obtain ⟨hr, hpantry'⟩ := applyAdd_of_lacking (s := s) r hstock
    rw [htop, hpantry, hr, hpantry']
    exact iff_of_true ⟨by simp [Sandwich.same], rfl⟩ (Or.inl hstock)

/-- **The opposite of the opposite**, of something said to last any number of times over. Of a
removal it is the removal. Of an addition it is an addition on top, which makes the same sandwich
and leaves the same stock exactly where there is nothing to add, or the place is there and nothing
but the same ingredient lies above it. -/
theorem reversed_twice [Scalar R] (x : Operation) :
    (∀ i, Wraps (.remove i) x → ∀ sp : Sandwich × Personality R,
      x.reverse.reverse.apply sp = x.apply sp) ∧
    ∀ i r, Wraps (.add i r) x → ∀ (s : Sandwich) (p : Personality R),
      x.reverse.reverse.apply (s, p) = applyAdd i .top s p ∧
      (((x.reverse.reverse.apply (s, p)).1.same (x.apply (s, p)).1 = true ∧
          (x.reverse.reverse.apply (s, p)).2.inventory = (x.apply (s, p)).2.inventory) ↔
        (¬ p.Stocks i.name 1 ∨ ∃ place, insertionPoint r s.ingredients = some place ∧
          ∀ j ∈ s.ingredients.drop place, j.name = i.name)) := by
  refine ⟨fun i h sp => by rw [h.reverse_reverse], fun i r h s p => ?_⟩
  rw [h.apply_reverse_reverse, h.apply]
  exact ⟨rfl, applyAdd_same_top r⟩

namespace House

/-- Lettuce. -/
def lettuce : Ingredient := ⟨"lettuce", "ta", none⟩

/-- A tomato. -/
def tomato : Ingredient := ⟨"tomato", "to", none⟩

/-- A sandwich of one tomato. -/
def oneTomato : Sandwich := { ingredients := [tomato] }

/-- On a tomato, reversing twice keeps a lettuce above it where it is, and puts one below it on top.
-/
theorem reversed_twice_lettuce :
    let below : Operation := .persist (.add lettuce (.before tomato))
    let above : Operation := .add lettuce (.after tomato)
    let start : Sandwich × Personality ℝ := (oneTomato, Personality.dreamer)
    (below.reverse.reverse.apply start).1.same (below.apply start).1 = false ∧
      (above.reverse.reverse.apply start).1.same (above.apply start).1 = true ∧
      (Operation.persist (.remove tomato)).reverse.reverse.apply start =
        (Operation.persist (.remove tomato)).apply start := by
  intro below above start
  have hbelow := ((reversed_twice (R := ℝ) below).2 lettuce (.before tomato) (.lasting .alone)
    oneTomato Personality.dreamer).2
  have habove := ((reversed_twice (R := ℝ) above).2 lettuce (.after tomato) .alone
    oneTomato Personality.dreamer).2
  have hstock : (Personality.dreamer : Personality ℝ).Stocks lettuce.name 1 := Or.inl rfl
  refine ⟨Bool.eq_false_iff.mpr fun hsame => ?_, (habove.mpr ?_).1,
    (reversed_twice (.persist (.remove tomato))).1 tomato (.lasting .alone) start⟩
  · -- the tomato lies above the place below it
    rcases hbelow.mp ⟨hsame, rfl⟩ with hnone | ⟨place, hplace, hall⟩
    · exact hnone hstock
    · obtain rfl : 0 = place := Option.some.inj hplace
      exact absurd (hall tomato (List.mem_singleton_self _)) (by decide)
  · exact Or.inr ⟨1, rfl, nofun⟩

end House

end Operation

end DeliTalk
