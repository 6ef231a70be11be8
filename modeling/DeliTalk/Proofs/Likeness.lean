import DeliTalk.Order.Likeness
import DeliTalk.Proofs.Reals

/-!
# A sequence is entirely like itself

Whatever names are passed over for being frequent, the longest block of a sequence and itself lies
on the diagonal: a block off the diagonal is no longer than the one of the same names on it, and
that one was seen before. Around a block on the diagonal everything is equal, so it grows to the
whole.

* `shared`: how many names that count two sequences end with in common.
* `bestFrom_diagonal`: the longest block lies on the diagonal.
* `likeness_self`: the likeness of a sequence and itself is one.
-/

namespace DeliTalk.Likeness

variable {usable : String → Bool}

/-! ## 1. Rows -/

/-- How many names that count two sequences have in common, read backwards. -/
def shared (usable : String → Bool) : List String → List String → Nat
  | x :: p, y :: q => if usable y && y == x then shared usable p q + 1 else 0
  | _, _ => 0

theorem shared_le_left : ∀ p q : List String, shared usable p q ≤ shared usable p p
  | [], q => by simp [shared]
  | x :: p, [] => by simp [shared]
  | x :: p, y :: q => by
    have ih := shared_le_left p q
    rw [shared]
    split
    · rename_i h
      obtain ⟨hy, heq⟩ := Bool.and_eq_true_iff.mp h
      rw [beq_iff_eq] at heq
      subst heq
      rw [shared, hy, if_pos (by simp)]
      omega
    · exact Nat.zero_le _

theorem shared_le_right : ∀ p q : List String, shared usable p q ≤ shared usable q q
  | [], q => by simp [shared]
  | x :: p, [] => by simp [shared]
  | x :: p, y :: q => by
    have ih := shared_le_right p q
    rw [shared]
    split
    · rename_i h
      obtain ⟨hy, -⟩ := Bool.and_eq_true_iff.mp h
      rw [shared, hy, if_pos (by simp)]
      omega
    · exact Nat.zero_le _

theorem shared_le_length : ∀ p q : List String, shared usable p q ≤ p.length
  | [], q => by simp [shared]
  | x :: p, [] => by simp [shared]
  | x :: p, y :: q => by
    have ih := shared_le_length p q
    rw [shared, List.length_cons]
    split
    · omega
    · exact Nat.zero_le _

/-- A row: what some names and each beginning of others have in common. -/
def rowOf (usable : String → Bool) (p : List String) : List String → List String → List Nat
  | _, [] => []
  | q, y :: b => shared usable p (y :: q) :: rowOf usable p (y :: q) b

theorem length_rowOf (p : List String) : ∀ q b : List String, (rowOf usable p q b).length = b.length
  | _, [] => rfl
  | q, y :: b => by rw [rowOf, List.length_cons, List.length_cons, length_rowOf p (y :: q) b]

theorem rowOf_append (p : List String) : ∀ q b c : List String,
    rowOf usable p q (b ++ c) = rowOf usable p q b ++ rowOf usable p (b.reverse ++ q) c
  | _, [], _ => rfl
  | q, y :: b, c => by
    rw [List.cons_append, rowOf, rowOf, rowOf_append p (y :: q) b c]
    simp

/-- Everything in a row is shared with some beginning. -/
theorem mem_rowOf (p : List String) : ∀ {q b : List String} {k : Nat}, k ∈ rowOf usable p q b →
    ∃ q', q' <:+ b.reverse ++ q ∧ k = shared usable p q'
  | q, y :: b, k, h => by
    rcases List.mem_cons.mp h with rfl | h
    · exact ⟨y :: q, ⟨b.reverse, by simp⟩, rfl⟩
    · obtain ⟨q', hq', hk⟩ := mem_rowOf p h
      exact ⟨q', by simpa using hq', hk⟩

/-- A row is made from the row before. -/
theorem nextRow_rowOf (x : String) (p : List String) : ∀ q b : List String,
    nextRow x (shared usable p q) (b.map fun y => (y, usable y)) (rowOf usable p q b) =
      rowOf usable (x :: p) q b
  | _, [] => rfl
  | q, y :: b => by
    rw [List.map_cons, rowOf, nextRow, rowOf, List.headD_cons, List.tail_cons,
      nextRow_rowOf x p (y :: q) b, shared]

theorem nextRow_nil (x : String) : ∀ q b : List String,
    nextRow x 0 (b.map fun y => (y, usable y)) [] = rowOf usable [x] q b
  | _, [] => rfl
  | q, y :: b => by
    rw [List.map_cons, nextRow, rowOf, shared]
    show _ :: nextRow x 0 (b.map fun y => (y, usable y)) [] = _
    rw [nextRow_nil x (y :: q) b]
    rfl

/-- **The next row** of a whole sequence; there is none before the first. -/
theorem nextRow_front (x : String) (p b : List String) :
    nextRow x 0 (b.map fun y => (y, usable y)) (if p = [] then [] else rowOf usable p [] b) =
      rowOf usable (x :: p) [] b := by
  split
  · rename_i hp
    rw [hp]
    exact nextRow_nil x [] b
  · have hzero : shared usable p [] = 0 := by cases p <;> rfl
    rw [← nextRow_rowOf x p [] b, hzero]

/-! ## 2. The longest block -/

theorem bestInRow_append (i : Nat) : ∀ (j : Nat) (r s : List Nat) (best : Block),
    bestInRow i j (r ++ s) best = bestInRow i (j + r.length) s (bestInRow i j r best)
  | _, [], _, _ => rfl
  | j, k :: r, s, best => by
    rw [List.cons_append, bestInRow, bestInRow, bestInRow_append i (j + 1) r s, List.length_cons]
    congr 1
    omega

/-- Nothing in a row is longer than what is known already. -/
theorem bestInRow_of_le (i : Nat) : ∀ (j : Nat) {r : List Nat} {best : Block},
    (∀ k ∈ r, k ≤ best.size) → bestInRow i j r best = best
  | _, [], _, _ => rfl
  | j, k :: r, best, h => by
    have hk := h k List.mem_cons_self
    rw [bestInRow, if_neg (by omega)]
    exact bestInRow_of_le i (j + 1) fun k' hk' => h k' (List.mem_cons_of_mem k hk')

/-- A block on the diagonal of what was seen, as long as any there. -/
structure Diagonal (usable : String → Bool) (p : List String) (best : Block) : Prop where
  diagonal : best.left = best.right
  fits : best.left + best.size ≤ p.length
  longest : ∀ q, q <:+ p → shared usable q q ≤ best.size

/-- **One row** keeps the longest block on the diagonal. -/
theorem Diagonal.row {p : List String} {best : Block} (h : Diagonal usable p best) (x : String)
    (rest : List String) : Diagonal usable (x :: p)
      (bestInRow p.length 0 (rowOf usable (x :: p) [] (p.reverse ++ x :: rest)) best) := by
  have hbefore : bestInRow p.length 0 (rowOf usable (x :: p) [] p.reverse) best = best := by
    refine bestInRow_of_le _ _ fun k hk => ?_
    obtain ⟨q, hq, rfl⟩ := mem_rowOf _ hk
    rw [List.reverse_reverse, List.append_nil] at hq
    exact (shared_le_right _ _).trans (h.longest q hq)
  rw [rowOf_append, bestInRow_append, hbefore, length_rowOf, List.length_reverse,
    List.reverse_reverse, List.append_nil, rowOf, bestInRow]
  have hlength : shared usable (x :: p) (x :: p) ≤ p.length + 1 := shared_le_length _ _
  -- the only place where something longer can turn up is the one on the diagonal
  have hgrown : Diagonal usable (x :: p) (if best.size < shared usable (x :: p) (x :: p)
      then ⟨p.length + 1 - shared usable (x :: p) (x :: p),
        0 + p.length + 1 - shared usable (x :: p) (x :: p), shared usable (x :: p) (x :: p)⟩
      else best) := by
    generalize hk : shared usable (x :: p) (x :: p) = k at hlength ⊢
    have hfits := h.fits
    split
    · rename_i hlt
      refine ⟨by show p.length + 1 - k = 0 + p.length + 1 - k; omega, ?_, fun q hq => ?_⟩
      · show p.length + 1 - k + k ≤ p.length + 1
        omega
      · rcases List.suffix_cons_iff.mp hq with rfl | hq
        · exact hk.le
        · exact (h.longest q hq).trans hlt.le
    · rename_i hge
      refine ⟨h.diagonal, by rw [List.length_cons]; omega, fun q hq => ?_⟩
      rcases List.suffix_cons_iff.mp hq with rfl | hq
      · omega
      · exact h.longest q hq
  rw [bestInRow_of_le]
  · exact hgrown
  · intro k hk
    obtain ⟨q, -, rfl⟩ := mem_rowOf _ hk
    exact (shared_le_left _ _).trans (hgrown.longest (x :: p) List.suffix_rfl)

/-- **The longest block** of a sequence and itself lies on the diagonal. -/
theorem bestFrom_diagonal (a : List String) : ∀ (rest p : List String) (best : Block),
    a = p.reverse ++ rest → Diagonal usable p best →
    Diagonal usable a.reverse (bestFrom (a.map fun y => (y, usable y)) p.length
      (if p = [] then [] else rowOf usable p [] a) best rest)
  | [], p, best, ha, h => by
    rw [ha, List.append_nil, List.reverse_reverse]
    exact h
  | x :: rest, p, best, ha, h => by
    have ih := bestFrom_diagonal a rest (x :: p)
      (bestInRow p.length 0 (rowOf usable (x :: p) [] a) best) (by simpa using ha)
      (by rw [ha]; exact h.row x rest)
    rw [if_neg (List.cons_ne_nil x p)] at ih
    rw [bestFrom]
    simp only [nextRow_front]
    exact ih

/-! ## 3. Likeness -/

theorem agreement_self : ∀ a : List String, agreement a a = a.length
  | [] => rfl
  | x :: a => by rw [agreement, if_pos rfl, agreement_self a, List.length_cons]

/-- The longest block of a sequence and itself is the whole. -/
theorem longest_self (a : List String) :
    longest a (a.map fun y => (y, usable y)) = ⟨0, 0, a.length⟩ := by
  have hbest := bestFrom_diagonal a a [] ⟨0, 0, 0⟩ rfl (show Diagonal usable [] _ from
    ⟨rfl, Nat.le_refl 0, fun q hq => by rw [List.suffix_nil.mp hq]; exact Nat.le_refl 0⟩)
  rw [if_pos rfl] at hbest
  unfold longest
  rw [List.length_nil] at hbest
  generalize bestFrom (a.map fun y => (y, usable y)) 0 [] ⟨0, 0, 0⟩ a = best at hbest ⊢
  obtain ⟨left, right, size⟩ := best
  obtain ⟨hdiagonal, hfits, -⟩ := hbest
  simp only [List.length_reverse] at hdiagonal hfits
  subst hdiagonal
  have hnames : (a.map fun y => (y, usable y)).map (·.1) = a := by
    rw [List.map_map]
    exact List.map_id a
  unfold grow
  simp only [hnames, agreement_self, List.length_reverse, List.length_take, List.length_drop]
  rw [Block.mk.injEq]
  refine ⟨by omega, by omega, by omega⟩

theorem matched_self (a : List String) : matched a (a.map fun y => (y, usable y)) = a.length := by
  have hnil : matched [] [] = 0 := by
    rw [matched]
    rfl
  rw [matched, longest_self]
  by_cases h : a = []
  · subst h
    rfl
  · have hpos := List.length_pos_iff.mpr h
    simp only
    rw [if_pos ⟨hpos, by omega⟩]
    have hdrop : (a.map fun y => (y, usable y)).drop a.length = [] :=
      List.drop_of_length_le (by rw [List.length_map])
    simp [hnil, hdrop]

/-- **A sequence is entirely like itself.** -/
theorem likeness_self (a : List String) : likeness a a = 1 := by
  unfold likeness
  split
  · rfl
  · rename_i h
    rw [mark, matched_self, two_mul]
    exact div_self (by exact_mod_cast h)

end DeliTalk.Likeness
