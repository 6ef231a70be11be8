import DeliTalk.Decimal.Binary64
import DeliTalk.Operation.Document

/-!
# How deep an operation may be

A document is read only down to a certain depth. What is written is read back exactly if it fits
into the room it is read in; otherwise nothing but its depth is found wrong with it.

* `Operation.levels`: the room an operation takes inside others.
* `Operation.givesIf_ofDocBelow`, `Operation.reads_back`: operations.
* `Operation.levels_topRank_tower`: what operations kept inside each other take.
-/

namespace DeliTalk

variable {R : Type}

open Check Doc

namespace Operation

/-! ## 1. The room an operation takes -/

/-- How much room an operation that holds others takes for itself, inside others of a rank. -/
def stride (rank own : Nat) : Nat := if rank ≤ own then 1 else 2

/-- The room an operation takes inside others, the least rank of which is given. -/
def levels : Nat → Operation → Nat
  | _, add i r => max i.height ((r.anchor.map Ingredient.height).getD 0) + 2
  | _, remove i | _, removeAll i | _, ensure i | _, checkFor i => i.height + 2
  | rank, repeated _ x => levels (min rank 0) x + stride rank 0
  | rank, compound x y => max (levels (min rank 1) x) (levels (min rank 1) y) + stride rank 1
  | rank, persist x => levels (min rank 2) x + stride rank 2
  | _, affirm | _, negate | _, finish => 1

theorem levels_pos (rank : Nat) (x : Operation) : 0 < levels rank x := by
  cases x <;> simp only [levels, stride] <;> first | omega | (split <;> omega)

/-! ## 2. One operation -/

section Kinds

variable [Scalar R] {need room rank : Nat} {x : Operation} {d : Doc R}
  {kind : String} {fs : List (String × Doc R)}

/-- An operation that holds no other one takes one more than its fields. -/
theorem givesIf_plain (hd : kindOfDoc d = .sound (kind, fs)) (hkind : rank? kind = none)
    (h : ∀ left, GivesIf (need ≤ left) x (plainOfFields left kind fs)) :
    GivesIf (need + 1 ≤ room) x (ofDocBelow room rank d) := by
  cases room with
  | zero =>
    rw [ofDocBelow, hd]
    exact (givesIf_tooDeep (by omega)).under _
  | succ left =>
    rw [ofDocBelow, hd]
    simp only [andThen_sound, hkind]
    exact ((h left).under _).congr (by omega)

/-- One that holds others takes one more than they do, or two more if no such kind is above it. -/
theorem givesIf_holder {own : Nat} (hd : kindOfDoc d = .sound (kind, fs))
    (hkind : rank? kind = some own) (hneed : 0 < need)
    (h : ∀ left, GivesIf (need ≤ left) x
      (holderOfFields (ofDocBelow left (min rank own)) kind fs)) :
    GivesIf (need + stride rank own ≤ room) x (ofDocBelow room rank d) := by
  cases room with
  | zero =>
    rw [ofDocBelow, hd]
    exact (givesIf_tooDeep (by omega)).under _
  | succ left =>
    rw [ofDocBelow, hd]
    simp only [andThen_sound, hkind]
    refine Check.GivesIf.under _ ?_
    unfold stride
    by_cases hrank : rank ≤ own
    · rw [if_pos hrank, if_pos hrank]
      rw [Nat.min_eq_left hrank] at h
      exact (h left).congr (by omega)
    · -- no such kind is above it, so it goes down once more before its fields are read
      rw [if_neg hrank, if_neg hrank]
      rw [Nat.min_eq_right (by omega)] at h
      cases left with
      | zero => exact givesIf_tooDeep (by omega)
      | succ left => exact (h left).congr (by omega)

end Kinds

variable {kind : String} {room rank : Nat}

theorem kindOfDoc_map {fs : List (String × Doc R)} (h : kind ∈ plainKinds ∨ (rank? kind).isSome) :
    kindOfDoc (.map (("kind", .text kind) :: fs)) = .sound (kind, ("kind", .text kind) :: fs) := by
  simp [kindOfDoc, Register.find?, h]

theorem givesIf_ingredient {left : Nat} (i : Ingredient) :
    GivesIf (i.height + 1 ≤ left) i
      (Check.under (.field "ingredient") (Ingredient.ofDoc (left - 1) (i.toDoc : Doc R))) :=
  ((Ingredient.givesIf_ofDoc (left - 1) i).under _).congr (by have := i.height_pos; omega)

theorem givesIf_add (left : Nat) (i : Ingredient) (r : Relative) :
    GivesIf (max i.height ((r.anchor.map Ingredient.height).getD 0) + 1 ≤ left) (add i r)
      (add <$> Check.under (.field "ingredient") (Ingredient.ofDoc (left - 1) (i.toDoc : Doc R))
        <*> Check.under (.field "relative") (Relative.ofDoc left (r.toDoc : Doc R))) := by
  have hr := (@Relative.givesIf_ofDoc R left r).under (.field "relative")
  refine (((givesIf_ingredient i).map add).seq hr).congr ?_
  have hpos := i.height_pos
  obtain ⟨position, _ | a⟩ := r
  · simp only [Relative.Fits, Option.mem_def, reduceCtorEq, false_implies, implies_true, and_true,
      Option.map_none, Option.getD_none]
    omega
  · simp only [Relative.Fits, Option.mem_def, Option.some.injEq, forall_eq', Option.map_some,
      Option.getD_some]
    omega

variable [Scalar R]

/-- An operation without fields takes one. -/
theorem givesIf_word {x : Operation} (hkind : kind ∈ plainKinds) (hrank : rank? kind = none)
    (hread : ∀ left (fs : List (String × Doc R)), plainOfFields left kind fs = .sound x) :
    GivesIf (1 ≤ room) x (ofDocBelow room rank (.map [("kind", .text kind)] : Doc R)) := by
  refine givesIf_plain (kindOfDoc_map (Or.inl hkind)) hrank fun left => ?_
  rw [hread]
  exact givesIf_sound (Nat.zero_le left)

/-- An operation on an ingredient takes two more than its tree. -/
theorem givesIf_onIngredient {f : Ingredient → Operation} (i : Ingredient)
    (hkind : kind ∈ plainKinds) (hrank : rank? kind = none)
    (hread : ∀ left (fs : List (String × Doc R)), plainOfFields left kind fs =
      f <$> field fs "ingredient" (Ingredient.ofDoc (left - 1))) :
    GivesIf (i.height + 2 ≤ room) (f i) (ofDocBelow room rank
      (.map [("kind", .text kind), ("ingredient", i.toDoc)] : Doc R)) := by
  refine givesIf_plain (kindOfDoc_map (Or.inl hkind)) hrank fun left => ?_
  rw [hread]
  simpa [field, Register.find?] using (givesIf_ingredient i).map f

theorem givesIf_count {n : Nat} (h : 1 ≤ n) :
    GivesIf True n (countOfDoc (.int n : Doc R)) := by
  have hn : (1 : Int) ≤ (n : Int) := by omega
  simpa [countOfDoc, asInt, Check.require, hn] using givesIf_sound (a := n) trivial

/-- **An operation is read back exactly if it fits into the room.** -/
theorem givesIf_ofDocBelow : ∀ (x : Operation) (room rank : Nat), Counted x →
    GivesIf (levels rank x ≤ room) x (ofDocBelow room rank (toDoc x : Doc R))
  | add i r, room, rank, _ => by
    refine givesIf_plain (kindOfDoc_map (by decide)) (by decide) fun left => ?_
    simpa [plainOfFields, field, fieldOr, Register.find?] using givesIf_add left i r
  | remove i, _, _, _ => givesIf_onIngredient i (by decide) (by decide) fun _ _ => rfl
  | removeAll i, _, _, _ => givesIf_onIngredient i (by decide) (by decide) fun _ _ => rfl
  | ensure i, _, _, _ => givesIf_onIngredient i (by decide) (by decide) fun _ _ => rfl
  | checkFor i, _, _, _ => givesIf_onIngredient i (by decide) (by decide) fun _ _ => rfl
  | affirm, _, _, _ => givesIf_word (by decide) (by decide) fun _ _ => rfl
  | negate, _, _, _ => givesIf_word (by decide) (by decide) fun _ _ => rfl
  | finish, _, _, _ => givesIf_word (by decide) (by decide) fun _ _ => rfl
  | repeated n x, room, rank, hc => by
    refine givesIf_holder (kindOfDoc_map (by decide)) (by decide) (levels_pos _ x) fun left => ?_
    have hn := (givesIf_count (R := R) hc.1).under (.field "count")
    have hx := (givesIf_ofDocBelow x left (min rank 0) hc.2).under (.field "operation")
    simpa [holderOfFields, field, Register.find?] using (hn.map repeated).seq hx
  | compound x y, room, rank, hc => by
    have hpos := levels_pos (min rank 1) x
    refine givesIf_holder (kindOfDoc_map (by decide)) (by decide) (by omega) fun left => ?_
    have hx := (givesIf_ofDocBelow x left (min rank 1) hc.1).under (.field "first")
    have hy := (givesIf_ofDocBelow y left (min rank 1) hc.2).under (.field "second")
    simpa [holderOfFields, field, Register.find?, Nat.max_le] using (hx.map compound).seq hy
  | persist x, room, rank, hc => by
    refine givesIf_holder (kindOfDoc_map (by decide)) (by decide) (levels_pos _ x) fun left => ?_
    have hx := (givesIf_ofDocBelow x left (min rank 2) hc).under (.field "operation")
    simpa [holderOfFields, field, Register.find?] using hx.map persist

/-! ## 3. Written and read back -/

theorem givesIf_ofDoc {x : Operation} (h : Counted x) :
    GivesIf (levels topRank x ≤ nestingLimit) x (ofDoc (toDoc x : Doc R)) :=
  givesIf_ofDocBelow x nestingLimit topRank h

/-- **What is written of an operation is read back exactly if it is not too deep.** If it takes no
more than the room there is, the same operation is read in its document; if it takes more, there is
nothing wrong with the document but its depth. -/
theorem reads_back {x : Operation} (h : Counted x) :
    (levels topRank x ≤ nestingLimit → ofDoc (toDoc x : Doc R) = .sound x) ∧
      (nestingLimit < levels topRank x → ∃ ps, ofDoc (toDoc x : Doc R) = .flawed ps ∧ ps ≠ [] ∧
        ∀ p ∈ ps, p.flaw = .tooDeep) := by
  have hgives := givesIf_ofDoc (R := R) h
  exact ⟨hgives.1, fun hdeep => hgives.2 (by omega)⟩

theorem levels_le_height : ∀ (x : Operation) (rank : Nat), levels rank x ≤ height x + rank
  | add _ _, _ | remove _, _ | removeAll _, _ | ensure _, _ | checkFor _, _ => Nat.le_add_right ..
  | affirm, _ | negate, _ | finish, _ => Nat.le_add_right ..
  | repeated _ x, rank => by
    have ih := levels_le_height x (min rank 0)
    simp only [levels, height, stride]
    split <;> omega
  | compound x y, rank => by
    have ihx := levels_le_height x (min rank 1)
    have ihy := levels_le_height y (min rank 1)
    simp only [levels, height, stride]
    split <;> omega
  | persist x, rank => by
    have ih := levels_le_height x (min rank 2)
    simp only [levels, height, stride]
    split <;> omega

/-- **Writing an operation and reading it back gives the same operation**, if it is not higher than
the room. -/
theorem ofDoc_toDoc {x : Operation} (hc : Counted x) (h : height x + topRank ≤ nestingLimit) :
    ofDoc (toDoc x : Doc R) = .sound x :=
  (givesIf_ofDoc hc).1 (Nat.le_trans (levels_le_height x topRank) h)

/-! ## 4. Towers of operations -/

/-- An operation kept, and what is kept kept again. -/
def tower (x : Operation) : Nat → Operation
  | 0 => x
  | n + 1 => persist (tower x n)

theorem counted_tower {x : Operation} (h : Counted x) : ∀ n, Counted (tower x n)
  | 0 => h
  | n + 1 => counted_tower h n

theorem levels_tower {rank : Nat} (h : rank ≤ 2) (x : Operation) :
    ∀ n, levels rank (tower x n) = levels rank x + n
  | 0 => rfl
  | n + 1 => by
    rw [tower, levels, stride, if_pos h, Nat.min_eq_left h, levels_tower h x n]
    omega

/-- The outermost of the operations that are kept takes one more than the others. -/
theorem levels_topRank_tower (x : Operation) (n : Nat) :
    levels topRank (tower x (n + 1)) = levels 2 x + n + 2 := by
  rw [tower, levels, stride, if_neg (by decide), show min topRank 2 = 2 from rfl,
    levels_tower (Nat.le_refl 2) x n]

namespace House

/-- A tower of a given height over a yes. -/
def yes (n : Nat) : Operation := tower affirm n

/-- Two times: an ingredient with an empty list of children behind one that has a child, and another
one never. -/
def sampler : Operation :=
  repeated 2 (compound
    (add ⟨"lettuce", "ta", some []⟩ ⟨.after, some ⟨"leaf", "le", some [⟨"tomato", "to", none⟩]⟩⟩)
    (persist (remove ⟨"ham", "ha", none⟩)))

/-- A sampler comes back, and so does a yes kept two hundred and fifty-three times over; a yes kept
once more is too deep. -/
theorem reads_back_sampler :
    (Counted sampler ∧ ofDoc (toDoc sampler : Doc Float) = .sound sampler) ∧
    (Counted (yes 253) ∧ ofDoc (toDoc (yes 253) : Doc Float) = .sound (yes 253)) ∧
    (Counted (yes 254) ∧ ∃ ps, ofDoc (toDoc (yes 254) : Doc Float) = .flawed ps ∧ ps ≠ [] ∧
      ∀ p ∈ ps, p.flaw = .tooDeep) := by
  have hsampler : Counted sampler := ⟨by decide, trivial, trivial⟩
  have hlow : Counted (yes 253) := @counted_tower affirm trivial 253
  have hhigh : Counted (yes 254) := @counted_tower affirm trivial 254
  refine ⟨⟨hsampler, (reads_back hsampler).1 ?_⟩, ⟨hlow, (reads_back hlow).1 ?_⟩,
    hhigh, (reads_back hhigh).2 ?_⟩
  · simp [sampler, levels, stride, topRank, nestingLimit, Ingredient.height, Ingredient.heights]
  · rw [yes, levels_topRank_tower]
    decide
  · rw [yes, levels_topRank_tower]
    decide

/-- A yes kept three hundred times over is an operation, and it does not come back. -/
theorem yes_lost :
    Counted (yes 300) ∧ ofDoc (toDoc (yes 300) : Doc Float) ≠ .sound (yes 300) := by
  have hcounted : Counted (yes 300) := @counted_tower affirm trivial 300
  refine ⟨hcounted, ?_⟩
  obtain ⟨ps, hlost, -⟩ := (givesIf_ofDoc (R := Float) hcounted).2 (by
    rw [yes, levels_topRank_tower]
    decide)
  rw [hlost]
  nofun

end House

end Operation

end DeliTalk
