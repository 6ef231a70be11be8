import DeliTalk.Proofs.Reversal
import DeliTalk.Proofs.Standing

/-!
# Taking back what was put on top

The opposite of an operation does the opposite of each of its steps, the other way round. So the
opposite of putting some ingredients on top takes as many of each name off again; but each time it
takes the first one of the name, which need not be the one that was put on. What is on the sandwich
in the end is told by counting names; and where no such name was on it before, nothing of what was
on it before is ever touched.

* `Operation.steps_reverse`: the steps of the opposite.
* `Operation.PilesUp`: operations that put ingredients on top and do nothing else.
* `Operation.withoutEach`: taking several ingredients off, one after the other.
* `Operation.undone`: what is put on top and taken back leaves the sandwich as it was.
-/

namespace DeliTalk

namespace Operation

/-! ## 1. The steps of the opposite -/

/-- **The opposite** does the opposite of each step, the other way round. -/
theorem steps_reverse (x : Operation) : x.reverse.steps = (x.steps.map reverse).reverse := by
  induction x with
  | repeated n x ih =>
    show (List.replicate n x.reverse.steps).flatten =
      ((List.replicate n x.steps).flatten.map reverse).reverse
    rw [List.map_flatten, List.reverse_flatten, List.map_replicate, List.map_replicate,
      List.reverse_replicate, ih]
  | compound x y ihx ihy =>
    show y.reverse.steps ++ x.reverse.steps = ((x.steps ++ y.steps).map reverse).reverse
    rw [List.map_append, List.reverse_append, ihx, ihy]
  | persist x ih => exact ih
  | _ => rfl

/-! ## 2. Putting ingredients on top -/

/-- Operations that put ingredients on top, however they are put together, and do nothing else. -/
inductive PilesUp : Operation → Prop where
  | one {i : Ingredient} {r : Relative} (top : r.position = .top) : PilesUp (.add i r)
  | times {n : Nat} {x : Operation} (inner : PilesUp x) : PilesUp (.repeated n x)
  | both {x y : Operation} (first : PilesUp x) (second : PilesUp y) : PilesUp (.compound x y)
  | lasting {x : Operation} (inner : PilesUp x) : PilesUp (.persist x)

/-- The ingredient a single operation adds. -/
def added? : Operation → Option Ingredient
  | add i _ => some i
  | _ => none

/-- Whether some single operations are all additions on top. -/
def AllOnTop (l : List Operation) : Prop := ∀ y ∈ l, ∃ i r, r.position = .top ∧ y = .add i r

theorem PilesUp.steps {x : Operation} (hx : PilesUp x) : AllOnTop x.steps := by
  intro y hy
  induction hx with
  | one top =>
    cases List.mem_singleton.mp hy
    exact ⟨_, _, top, rfl⟩
  | times inner ih =>
    obtain ⟨l, hl, hy⟩ := List.mem_flatten.mp hy
    rw [(List.mem_replicate.mp hl).2] at hy
    exact ih hy
  | both first second ihx ihy => exact (List.mem_append.mp hy).elim ihx ihy
  | lasting inner ih => exact ih hy

variable {R : Type} [Scalar R] {p : Personality R}

omit [Scalar R] in
/-- Where everything is in stock, something more goes on top and nothing else changes. -/
theorem applyAdd_unlimited {i : Ingredient} {r : Relative} (htop : r.position = .top)
    (s : Sandwich) (hp : p.unlimitedStock = true) :
    applyAdd i r s p = ({ s with ingredients := s.ingredients ++ [i.leaf] }, p) := by
  have hplace : insertionPoint r s.ingredients = some s.ingredients.length := by
    unfold insertionPoint
    rw [htop]
  have htake : p.take i.name = (true, p) := if_pos hp
  unfold applyAdd
  simp only [hplace, htake, List.insertIdx_length_self]

/-- **Additions on top** put on what they add, in their order. -/
theorem AllOnTop.reapply (hp : p.unlimitedStock = true) : ∀ {l : List Operation}, AllOnTop l →
    ∀ s : Sandwich, Order.reapply l (s, p) =
      ({ s with ingredients := s.ingredients ++ (l.filterMap added?).map Ingredient.leaf }, p)
  | [], _, s => by simp [Order.reapply]
  | y :: rest, h, s => by
    obtain ⟨i, r, htop, rfl⟩ := h y List.mem_cons_self
    have hrest : AllOnTop rest := fun z hz => h z (List.mem_cons_of_mem _ hz)
    show Order.reapply rest (applyAdd i r s p) = _
    rw [applyAdd_unlimited htop s hp, hrest.reapply hp]
    simp [added?]

/-! ## 3. Taking ingredients off -/

/-- A sandwich without several ingredients, each taken off where it comes first. -/
def withoutEach (is : List Ingredient) (s : Sandwich) : Sandwich :=
  is.foldl (fun s i => withoutFirst i s) s

/-- The opposite of additions are removals. -/
theorem AllOnTop.map_reverse : ∀ {l : List Operation}, AllOnTop l →
    l.map reverse = (l.filterMap added?).map remove
  | [], _ => rfl
  | y :: rest, h => by
    obtain ⟨i, r, -, rfl⟩ := h y List.mem_cons_self
    have hrest : AllOnTop rest := fun z hz => h z (List.mem_cons_of_mem _ hz)
    exact congrArg (remove i :: ·) hrest.map_reverse

/-- Removals take off what they name, one after the other. -/
theorem reapply_removals : ∀ (is : List Ingredient) (s : Sandwich),
    Order.reapply (is.map remove) (s, p) = (withoutEach is s, p)
  | [], _ => rfl
  | i :: rest, s => reapply_removals rest (withoutFirst i s)

/-- Taking something off, by names. -/
theorem names_withoutFirst (i : Ingredient) (s : Sandwich) :
    (withoutFirst i s).names = s.names.erase i.name := by
  rw [Sandwich.names, Sandwich.names, List.erase_eq_eraseP, List.eraseP_map]
  refine congrArg (fun q => (s.ingredients.eraseP q).map (·.name)) (funext fun j => ?_)
  exact Bool.beq_comm

/-- Taking several things off, by names. -/
theorem names_withoutEach : ∀ (is : List Ingredient) (s : Sandwich),
    (withoutEach is s).names = s.names.diff (is.map (·.name))
  | [], s => (List.diff_nil s.names).symm
  | i :: rest, s => by
    rw [List.map_cons, List.diff_cons, ← names_withoutFirst]
    exact names_withoutEach rest (withoutFirst i s)

/-- Taking things off leaves the other fields of a sandwich alone. -/
theorem withoutEach_eq : ∀ (is : List Ingredient) (s : Sandwich),
    withoutEach is s = { s with ingredients := (withoutEach is s).ingredients }
  | [], _ => rfl
  | i :: rest, s => withoutEach_eq rest (withoutFirst i s)

/-- What has none of the names stays at the bottom. -/
theorem prefix_withoutEach {l : List Ingredient} : ∀ {is : List Ingredient} {s : Sandwich},
    (∀ i ∈ is, ∀ j ∈ l, j.same i = false) → l <+: s.ingredients →
      l <+: (withoutEach is s).ingredients
  | [], _, _, hl => hl
  | i :: rest, s, hother, hl => by
    show l <+: (withoutEach rest (withoutFirst i s)).ingredients
    refine prefix_withoutEach (fun k hk => hother k (List.mem_cons_of_mem i hk)) ?_
    obtain ⟨t, ht⟩ := hl
    have hnone : ∀ j ∈ l, ¬ j.same i = true := fun j hj =>
      Bool.eq_false_iff.mp (hother i List.mem_cons_self j hj)
    show l <+: s.ingredients.eraseP (·.same i)
    rw [← ht, List.eraseP_append_right t hnone]
    exact List.prefix_append l _

/-! ## 4. Putting on and taking back -/

/-- What was put on top is taken off again, name by name. -/
theorem names_taken_back (is : List Ingredient) (s : Sandwich) :
    (withoutEach is.reverse
      { s with ingredients := s.ingredients ++ is.map Ingredient.leaf }).names.Perm s.names := by
  have hleaves : (is.map Ingredient.leaf).map (·.name) = is.map (·.name) := by
    rw [List.map_map]
    rfl
  rw [names_withoutEach, List.perm_iff_count]
  intro name
  rw [List.count_diff, List.map_reverse, List.count_reverse]
  show ((s.ingredients ++ is.map Ingredient.leaf).map (·.name)).count name - _ = _
  rw [List.map_append, List.count_append, hleaves, Nat.add_sub_cancel_right]
  rfl

/-- **What is put on top and taken back** leaves as many of every name on the sandwich as there
were, and the other fields and the machine as they were. The sandwich is the same if none of the
ingredients was on it. -/
theorem undone {x : Operation} (hx : x.PilesUp) (s : Sandwich) (hp : p.unlimitedStock = true) :
    ∃ s', x.reverse.apply (x.apply (s, p)) = (s', p) ∧ s'.names.Perm s.names ∧
      s'.ensured = s.ensured ∧ s'.complete = s.complete ∧ s'.background = s.background ∧
      ((∀ i r, .add i r ∈ x.steps → s.contains i = false) → s' = s) := by
  let is := x.steps.filterMap added?
  let piled : Sandwich := { s with ingredients := s.ingredients ++ is.map Ingredient.leaf }
  have happly : x.apply (s, p) = (piled, p) := by
    rw [apply_steps, hx.steps.reapply hp]
  have hback : x.reverse.apply (piled, p) = (withoutEach is.reverse piled, p) := by
    rw [apply_steps, steps_reverse, hx.steps.map_reverse, ← List.map_reverse, reapply_removals]
  have heq := withoutEach_eq is.reverse piled
  have hperm := names_taken_back is s
  refine ⟨withoutEach is.reverse piled, by rw [happly, hback], hperm, ?_, ?_, ?_, fun hnew => ?_⟩
  · rw [heq]
  · rw [heq]
  · rw [heq]
  · -- what was there is still at the bottom, and there is no more than it
    have hbottom : s.ingredients <+: (withoutEach is.reverse piled).ingredients := by
      refine prefix_withoutEach (fun i hi j hj => ?_) (List.prefix_append _ _)
      obtain ⟨y, hy, hadded⟩ := List.mem_filterMap.mp (List.mem_reverse.mp hi)
      obtain ⟨k, r, -, rfl⟩ := hx.steps y hy
      cases hadded
      exact Bool.eq_false_iff.mpr fun hsame =>
        Bool.eq_false_iff.mp (hnew i r hy) (List.any_eq_true.mpr ⟨j, hj, hsame⟩)
    have hlength := hperm.length_eq
    rw [Sandwich.names, Sandwich.names, List.length_map, List.length_map] at hlength
    rw [heq, ← hbottom.eq_of_length hlength.symm]

namespace House

/-- Two lettuces and then a tomato, for good. -/
def salad : Operation := .persist (.compound (.repeated 2 (.add lettuce .top)) (.add tomato .top))

/-- A salad put on a tomato and taken back leaves a tomato; put on nothing, it leaves nothing. -/
theorem undone_salad : salad.PilesUp ∧ (Personality.dreamer : Personality ℝ).unlimitedStock = true ∧
    (∃ s', salad.reverse.apply (salad.apply (oneTomato, (Personality.dreamer : Personality ℝ))) =
      (s', Personality.dreamer) ∧ s'.names.Perm ["tomato"]) ∧
    salad.reverse.apply (salad.apply ({}, (Personality.dreamer : Personality ℝ))) =
      ({}, Personality.dreamer) := by
  have hsalad : salad.PilesUp := .lasting (.both (.times (.one rfl)) (.one rfl))
  have hdreamer : (Personality.dreamer : Personality ℝ).unlimitedStock = true := rfl
  obtain ⟨s', happly, hperm, -⟩ := undone hsalad oneTomato hdreamer
  obtain ⟨s'', happly', -, -, -, -, hsame⟩ := undone hsalad {} hdreamer
  refine ⟨hsalad, hdreamer, ⟨s', happly, hperm⟩, ?_⟩
  rw [happly', hsame fun _ _ _ => rfl]

end House

end Operation

end DeliTalk
