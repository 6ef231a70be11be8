import DeliTalk.Order.Turn
import DeliTalk.Proofs.Likeness

/-!
# What two sequences have in common

A matching block stands for the same names in both sequences. The blocks before it are looked for
before it in both of them and the blocks after it behind it in both, so all the names in blocks
together, in their order, are a part of each sequence. Passing over frequent names only makes for
fewer of them.

* `Block.Matches`: the same names at both places of a block.
* `matches_longest`: the longest block is one.
* `exists_common`: the names in matching blocks, as a part of both sequences.
* `Order.score_judges`: what a score says of a result.
-/

namespace DeliTalk

namespace Likeness

variable (usable : String → Bool)

/-! ## 1. Blocks -/

/-- Whether a block stands for the same names in both sequences. -/
def Block.Matches (a b : List String) (block : Block) : Prop :=
  ∃ common a₁ a₂ b₁ b₂, a = a₁ ++ common ++ a₂ ∧ b = b₁ ++ common ++ b₂ ∧
    a₁.length = block.left ∧ b₁.length = block.right ∧ common.length = block.size

theorem take_before (l names rest : List String) : (l ++ names ++ rest).take l.length = l := by
  rw [List.append_assoc, List.take_left]

theorem drop_behind (l names rest : List String) :
    (l ++ names ++ rest).drop (l.length + names.length) = rest := by
  rw [← List.length_append, List.drop_left]

/-- The names that two sequences have in common, read backwards, are the same. -/
theorem take_shared : ∀ p q : List String,
    p.take (shared usable p q) = q.take (shared usable p q)
  | [], q => by simp [shared]
  | x :: p, [] => by simp [shared]
  | x :: p, y :: q => by
    have ih := take_shared p q
    rw [shared]
    split
    · rename_i h
      obtain ⟨-, heq⟩ := Bool.and_eq_true_iff.mp h
      rw [List.take_succ_cons, List.take_succ_cons, ih, beq_iff_eq.mp heq]
    · rfl

/-- What the beginnings of two sequences end with in common is a block. -/
theorem matches_shared (p q rest more : List String) :
    Block.Matches (p.reverse ++ rest) (q.reverse ++ more)
      ⟨p.length - shared usable p q, q.length - shared usable p q, shared usable p q⟩ := by
  have hfits : shared usable p q ≤ p.length := shared_le_length p q
  have htake : p.take (shared usable p q) = q.take (shared usable p q) := take_shared usable p q
  generalize shared usable p q = k at hfits htake ⊢
  have hsplit : ∀ l : List String, l.reverse = (l.drop k).reverse ++ (l.take k).reverse := by
    intro l
    rw [← List.reverse_append, List.take_append_drop]
  refine ⟨(p.take k).reverse, (p.drop k).reverse, rest, (q.drop k).reverse, more, ?_, ?_, ?_, ?_,
    ?_⟩
  · rw [← hsplit]
  · rw [htake, ← hsplit]
  · rw [List.length_reverse, List.length_drop]
  · rw [List.length_reverse, List.length_drop]
  · rw [List.length_reverse, List.length_take, Nat.min_eq_left hfits]

/-- **One row**: what is found there is a block, if what was known before it is one. -/
theorem matches_bestInRow {x : String} {p rest : List String} :
    ∀ (q more : List String) {best : Block},
      best.Matches ((x :: p).reverse ++ rest) (q.reverse ++ more) →
      (bestInRow p.length q.length (rowOf usable (x :: p) q more) best).Matches
        ((x :: p).reverse ++ rest) (q.reverse ++ more)
  | _, [], _, h => h
  | q, y :: more, best, h => by
    have hmore : q.reverse ++ y :: more = (y :: q).reverse ++ more := by simp
    rw [hmore] at h ⊢
    rw [rowOf, bestInRow]
    refine matches_bestInRow (y :: q) more ?_
    split
    · exact matches_shared usable (x :: p) (y :: q) rest more
    · exact h

/-- All rows. -/
theorem matches_bestFrom (b : List String) : ∀ (rest p : List String) {best : Block},
    best.Matches (p.reverse ++ rest) b →
    (bestFrom (b.map fun y => (y, usable y)) p.length
      (if p = [] then [] else rowOf usable p [] b) best rest).Matches (p.reverse ++ rest) b
  | [], _, _, h => h
  | x :: rest, p, best, h => by
    have hrest : p.reverse ++ x :: rest = (x :: p).reverse ++ rest := by simp
    rw [hrest] at h ⊢
    have hrow := matches_bestInRow usable [] b h
    have ih := matches_bestFrom b rest (x :: p) hrow
    rw [if_neg (List.cons_ne_nil x p)] at ih
    rw [bestFrom]
    simp only [nextRow_front]
    exact ih

/-- The names that two sequences start with in common. -/
theorem exists_agreement : ∀ a b : List String, ∃ common a' b',
    a = common ++ a' ∧ b = common ++ b' ∧ common.length = agreement a b
  | [], b => ⟨[], [], b, rfl, rfl, rfl⟩
  | x :: a, [] => ⟨[], x :: a, [], rfl, rfl, rfl⟩
  | x :: a, y :: b => by
    rw [agreement]
    split
    · rename_i hxy
      obtain ⟨common, a', b', ha, hb, hlength⟩ := exists_agreement a b
      refine ⟨x :: common, a', b', ?_, ?_, ?_⟩
      · rw [ha, List.cons_append]
      · rw [hb, hxy, List.cons_append]
      · rw [List.length_cons, hlength]
    · exact ⟨[], x :: a, y :: b, rfl, rfl, rfl⟩

/-- A block and the equal names around it are a block. -/
theorem matches_grow {a b : List String} {block : Block} (h : block.Matches a b) :
    (grow a (b.map fun y => (y, usable y)) block).Matches a b := by
  obtain ⟨left, right, size⟩ := block
  obtain ⟨common, a₁, a₂, b₁, b₂, rfl, rfl, hleft, hright, hsize⟩ := h
  simp only at hleft hright hsize
  subst hleft hright hsize
  obtain ⟨back, a₁', b₁', ha₁, hb₁, hback⟩ := exists_agreement a₁.reverse b₁.reverse
  obtain ⟨forth, a₂', b₂', ha₂, hb₂, hforth⟩ := exists_agreement a₂ b₂
  have hnames : ∀ l : List String, (l.map fun y => (y, usable y)).map (·.1) = l := by
    intro l
    rw [List.map_map]
    exact List.map_id l
  have hturn : ∀ {l l' : List String}, l.reverse = back ++ l' → l = l'.reverse ++ back.reverse := by
    intro l l' hl
    rw [← List.reverse_append, ← hl, List.reverse_reverse]
  unfold grow
  simp only [hnames, take_before, drop_behind, ← hback, ← hforth]
  refine ⟨back.reverse ++ common ++ forth, a₁'.reverse, a₂', b₁'.reverse, b₂', ?_, ?_, ?_, ?_, ?_⟩
  · rw [hturn ha₁, ha₂]
    simp only [List.append_assoc]
  · rw [hturn hb₁, hb₂]
    simp only [List.append_assoc]
  · rw [hturn ha₁, List.length_append, @List.length_reverse _ back, Nat.add_sub_cancel]
  · rw [hturn hb₁, List.length_append, @List.length_reverse _ back, Nat.add_sub_cancel]
  · simp only [List.length_append, List.length_reverse]

/-- **The longest block** stands for the same names in both sequences. -/
theorem matches_longest (a b : List String) :
    (longest a (b.map fun y => (y, usable y))).Matches a b := by
  have hnothing : (⟨0, 0, 0⟩ : Block).Matches a b := ⟨[], [], a, [], b, rfl, rfl, rfl, rfl, rfl⟩
  have hbest := matches_bestFrom usable b a [] hnothing
  rw [if_pos rfl] at hbest
  exact matches_grow usable hbest

/-! ## 2. All blocks -/

/-- **The names in matching blocks are a part of both sequences.** -/
theorem exists_common (a b : List String) : ∃ common : List String,
    common.Sublist a ∧ common.Sublist b ∧
      common.length = matched a (b.map fun y => (y, usable y)) := by
  have hlongest := matches_longest usable a b
  rw [matched]
  generalize longest a (b.map fun y => (y, usable y)) = block at hlongest
  obtain ⟨left, right, size⟩ := block
  simp only
  split
  · rename_i hfound
    obtain ⟨names, a₁, a₂, b₁, b₂, ha, hb, hleft, hright, hsize⟩ := hlongest
    simp only at hleft hright hsize
    subst hsize
    obtain ⟨before, hbefore, hbefore', hlength⟩ := exists_common (a.take left) (b.take right)
    obtain ⟨after, hafter, hafter', hlength'⟩ :=
      exists_common (a.drop (left + names.length)) (b.drop (right + names.length))
    have hmiddle : ∀ {l l₁ l₂ : List String} {i : Nat}, l = l₁ ++ names ++ l₂ → l₁.length = i →
        before.Sublist (l.take i) → after.Sublist (l.drop (i + names.length)) →
        (before ++ names ++ after).Sublist l := by
      intro l l₁ l₂ i hl hi htake hdrop
      rw [hl, ← hi, take_before] at htake
      rw [hl, ← hi, drop_behind] at hdrop
      rw [hl]
      exact (htake.append (List.Sublist.refl names)).append hdrop
    refine ⟨before ++ names ++ after, hmiddle ha hleft hbefore hafter,
      hmiddle hb hright hbefore' hafter', ?_⟩
    rw [← List.map_take, ← List.map_drop, ← hlength, ← hlength']
    simp only [List.length_append]
  · exact ⟨[], List.nil_sublist a, List.nil_sublist b, rfl⟩
termination_by a.length
decreasing_by
  -- a block that was found has a name, so what is before it and behind it is shorter
  · rw [List.length_take]
    omega
  · rw [List.length_drop]
    omega

/-! ## 3. Likeness -/

/-- **Likeness is a share of both sequences**: from zero to one, the whole for a sequence and itself
only, and nothing for sequences without a common name. -/
theorem likeness_bounds (a b : List String) :
    0 ≤ likeness a b ∧ likeness a b ≤ 1 ∧ (likeness a b = 1 → a = b) ∧
      (¬(a = [] ∧ b = []) → 0 < likeness a b → ∃ name ∈ a, name ∈ b) := by
  unfold likeness
  split
  · rename_i hempty
    have ha : a = [] := List.length_eq_zero_iff.mp (by omega)
    have hb : b = [] := List.length_eq_zero_iff.mp (by omega)
    exact ⟨zero_le_one, le_refl 1, fun _ => ha.trans hb.symm, fun hsome => absurd ⟨ha, hb⟩ hsome⟩
  · rename_i hlength
    obtain ⟨common, ha, hb, hcommon⟩ :=
      exists_common (fun x => b.length < crowd || b.count x ≤ b.length / 100 + 1) a b
    rw [mark, ← hcommon]
    have hleft := ha.length_le
    have hright := hb.length_le
    have hpos : (0 : ℚ) < ((a.length + b.length : ℕ) : ℚ) := by
      exact_mod_cast Nat.pos_of_ne_zero hlength
    refine ⟨by positivity, ?_, fun hone => ?_, fun _ hsome => ?_⟩
    · rw [div_le_one hpos]
      exact_mod_cast (by omega : 2 * common.length ≤ a.length + b.length)
    · rw [div_eq_one_iff_eq hpos.ne'] at hone
      have hwhole : 2 * common.length = a.length + b.length := by exact_mod_cast hone
      exact (ha.eq_of_length (by omega)).symm.trans (hb.eq_of_length (by omega))
    · cases common with
      | nil => simp at hsome
      | cons name common => exact ⟨name, ha.subset List.mem_cons_self, hb.subset List.mem_cons_self⟩

end Likeness

/-- **A score is full only for the sandwich that was wanted.** Whatever was wanted and whatever came
back, it lies between zero and one, is one exactly if the names are the same in the same order, and is
above zero only if they share a name or there are none on either side. -/
theorem Order.score_judges (o : Order) (result : Sandwich) :
    0 ≤ o.score result ∧ o.score result ≤ 1 ∧
    (o.score result = 1 ↔ o.desired.names = result.names) ∧
    (0 < o.score result → (o.desired.names = [] ∧ result.names = []) ∨
      ∃ name ∈ o.desired.names, name ∈ result.names) := by
  obtain ⟨hleast, hmost, hfull, hsome⟩ :=
    Likeness.likeness_bounds o.desired.names result.names
  refine ⟨hleast, hmost, ⟨hfull, fun hsame => ?_⟩, fun hpos => ?_⟩
  · unfold Order.score
    rw [hsame]
    exact Likeness.likeness_self result.names
  · by_cases hempty : o.desired.names = [] ∧ result.names = []
    · exact Or.inl hempty
    · exact Or.inr (hsome hempty hpos)

namespace Order.House

/-- Whoever wanted nothing and got nothing is entirely content, though no name is shared. -/
theorem score_nothing : 0 < ({} : Order).score {} ∧
    ¬ ∃ name ∈ ({} : Order).desired.names, name ∈ ({} : Sandwich).names := by
  have hfull : ({} : Order).score {} = 1 := Likeness.likeness_self []
  rw [hfull]
  exact ⟨one_pos, nofun⟩

end Order.House

end DeliTalk
