import DeliTalk.Operation
import DeliTalk.Proofs.Ending
import DeliTalk.Proofs.Reals

/-!
# What machines keep while they learn

Growing and fading touch the skills and the counters of idle turns and nothing else. A skill fades
by the logarithm of its idle turns, which needs a counter that is not too far below zero; the
counters a machine keeps itself never are.

* `Personality.Counted`: every counter has a logarithm at the next turn.
* `Personality.upgrade_spec`, `Personality.fade_spec`: what growing and fading leave, and when
  fading succeeds.
* `Personality.fade_fault`: a counter below minus one.
* `Operation.applyAdd_cases`: what adding comes to.
* `Operation.apply_invariant`: what every edit preserves, any operation does.
-/

namespace DeliTalk

/-! ## 1. Counters -/

theorem Skill.name_injective {s s' : Skill} (h : s.name = s'.name) : s = s' := by
  cases s <;> cases s' <;> first | rfl | exact absurd h (by decide)

theorem Skill.mem_all (s : Skill) : s ∈ Skill.all := by cases s <;> decide

namespace Personality

/-- The idle turns counted for a skill. -/
def idle {R : Type} (p : Personality R) (s : Skill) : Int :=
  (Register.find? s.name p.idleTurns).getD 0

/-- Whether every counter has a logarithm once it is one higher. -/
def Counted {R : Type} (p : Personality R) : Prop := ∀ s : Skill, -1 ≤ p.idle s

/-- A personality with other skills and counters. -/
def practised {R : Type} (p : Personality R) (l : Language R) (r : Register Int) :
    Personality R :=
  { p with language := l, idleTurns := r }

section Counted

variable {R : Type} {p : Personality R}

theorem idleFor_eq (p : Personality R) (s : Skill) : p.idleFor s = p.idle s + 1 := rfl

theorem idle_put {s s' : Skill} {n : Int} {r : Register Int}
    (hr : r = Register.put s.name n p.idleTurns) :
    (Register.find? s'.name r).getD 0 = if s' = s then n else p.idle s' := by
  subst hr
  split
  · rename_i h
    rw [h, Register.find?_put_self]
    rfl
  · rename_i h
    rw [Register.find?_put_of_ne n fun hname => h (Skill.name_injective hname)]
    rfl

theorem Counted.put (h : p.Counted) (s : Skill) {n : Int} (hn : -1 ≤ n) (l : Language R) :
    (p.practised l (Register.put s.name n p.idleTurns)).Counted := by
  intro s'
  show -1 ≤ (Register.find? s'.name (Register.put s.name n p.idleTurns)).getD 0
  rw [idle_put rfl]
  split
  · exact hn
  · exact h s'

end Counted

/-! ## 2. Fading and growing, over any scalars -/

section Scalars

variable {R : Type} [Scalar R]

/-- **Growing** leaves everything but the skills and their counters. -/
theorem upgrade_spec (p : Personality R) (delta : Language R) : ∃ l r,
    p.upgrade delta = p.practised l r ∧ (p.Counted → (p.practised l r).Counted) := by
  have key : ∀ (skills : List Skill) (p : Personality R), ∃ l r,
      skills.foldl (exercise delta) p = p.practised l r ∧
        (p.Counted → (p.practised l r).Counted) := by
    intro skills
    induction skills with
    | nil => exact fun p => ⟨p.language, p.idleTurns, rfl, id⟩
    | cons s rest ih =>
      intro p
      obtain ⟨l, r, hrest, hcounted⟩ := ih (exercise delta p s)
      exact ⟨l, r, hrest, fun h => hcounted (h.put s (by omega) _)⟩
  exact key delta.used p

/-- Whether the counter of a skill, once it is one higher, is a scalar and has a logarithm. -/
def Fades (p : Personality R) (s : Skill) : Prop :=
  Scalar.isFinite (Scalar.ofInt (p.idleFor s) : R) = true ∧ 0 < 1 + p.idleFor s

omit [Scalar R] in
/-- The counter of one skill is no other's. -/
theorem idleFor_put {p : Personality R} {s s' : Skill} (h : s' ≠ s) (l : Language R) (n : Int) :
    (p.practised l (Register.put s.name n p.idleTurns)).idleFor s' = p.idleFor s' := by
  have hput : (Register.find? s'.name (Register.put s.name n p.idleTurns)).getD 0 =
      if s' = s then n else p.idle s' := idle_put rfl
  rw [if_neg h] at hput
  show (Register.find? s'.name (Register.put s.name n p.idleTurns)).getD 0 + 1 = _
  rw [hput]
  rfl

/-- What keeps a counter from having a logarithm. -/
def flaw (p : Personality R) (s : Skill) : Fault :=
  if Scalar.isFinite (Scalar.ofInt (p.idleFor s) : R) then .noLogarithm else .oversized

theorem Fades.put {p : Personality R} {s s' : Skill} (h : s' ≠ s) (l : Language R) (n : Int) :
    (p.practised l (Register.put s.name n p.idleTurns)).Fades s' ↔ p.Fades s' := by
  unfold Fades
  rw [idleFor_put h]

theorem flaw_put {p : Personality R} {s s' : Skill} (h : s' ≠ s) (l : Language R) (n : Int) :
    (p.practised l (Register.put s.name n p.idleTurns)).flaw s' = p.flaw s' := by
  unfold flaw
  rw [idleFor_put h]

/-- **One skill fades** if its counter has a logarithm. The counter is one higher in any case. -/
theorem fadeOne_spec (p : Personality R) (s : Skill) : ∃ l,
    (p.Fades s ∧ fadeOne p s =
      (.ok (), p.practised l (Register.put s.name (p.idleFor s) p.idleTurns))) ∨
    (¬ p.Fades s ∧ fadeOne p s =
      (.error (p.flaw s), p.practised l (Register.put s.name (p.idleFor s) p.idleTurns))) := by
  unfold fadeOne Fades flaw
  simp only
  by_cases hfinite : Scalar.isFinite (Scalar.ofInt (p.idleFor s) : R) = true
  · rw [hfinite, Bool.not_true, if_neg Bool.false_ne_true]
    by_cases hpos : 0 < 1 + p.idleFor s
    · rw [if_neg (by omega)]
      exact ⟨_, Or.inl ⟨⟨rfl, hpos⟩, rfl⟩⟩
    · rw [if_pos (by omega)]
      exact ⟨_, Or.inr ⟨fun h => hpos h.2, rfl⟩⟩
  · rw [Bool.eq_false_iff.mpr hfinite, Bool.not_false, if_pos rfl]
    exact ⟨_, Or.inr ⟨fun h => Bool.false_ne_true h.1, rfl⟩⟩

omit [Scalar R] in
theorem Counted.ticked {p : Personality R} (h : p.Counted) (s : Skill) (l : Language R) :
    (p.practised l (Register.put s.name (p.idleFor s) p.idleTurns)).Counted := by
  have hs := h s
  exact h.put s (by rw [idleFor_eq]; omega) l

/-- The induction behind `fade_spec`: the skills that are left come after each other, and what one
of them fades by is no other's. -/
theorem fadeAll_spec (used : List Skill) :
    ∀ (skills : List Skill) (p : Personality R), skills.Nodup → ∃ l r,
      (p.Counted → (p.practised l r).Counted) ∧
      (((∀ s ∈ skills, s ∉ used → p.Fades s) ∧
          fadeAll used skills p = (.ok (), p.practised l r)) ∨
        ∃ s ∈ skills, s ∉ used ∧ ¬ p.Fades s ∧
          fadeAll used skills p = (.error (p.flaw s), p.practised l r)) := by
  intro skills
  induction skills with
  | nil =>
    intro p _
    exact ⟨p.language, p.idleTurns, id, Or.inl ⟨fun s hs => absurd hs List.not_mem_nil, rfl⟩⟩
  | cons s rest ih =>
    intro p hnodup
    obtain ⟨hfresh, hrest⟩ := List.nodup_cons.mp hnodup
    unfold fadeAll
    by_cases hused : s ∈ used
    · rw [if_pos hused]
      obtain ⟨l, r, hcounted, h⟩ := ih p hrest
      refine ⟨l, r, hcounted, ?_⟩
      rcases h with ⟨hall, h⟩ | ⟨s', hs', hnot⟩
      · exact Or.inl ⟨List.forall_mem_cons.mpr ⟨fun hunused => absurd hused hunused, hall⟩, h⟩
      · exact Or.inr ⟨s', List.mem_cons_of_mem s hs', hnot⟩
    · rw [if_neg hused]
      obtain ⟨l, ⟨hfades, hone⟩ | ⟨hnot, hone⟩⟩ := fadeOne_spec p s
      · rw [hone]
        -- the counters of the others are still the ones there were
        have hother : ∀ s' ∈ rest, s' ≠ s := fun s' hs' heq => hfresh (heq ▸ hs')
        obtain ⟨l', r, hcounted, h⟩ :=
          ih (p.practised l (Register.put s.name (p.idleFor s) p.idleTurns)) hrest
        refine ⟨l', r, fun hp => hcounted (hp.ticked s l), ?_⟩
        rcases h with ⟨hall, h⟩ | ⟨s', hs', hunused, hnot, h⟩
        · exact Or.inl ⟨List.forall_mem_cons.mpr ⟨fun _ => hfades, fun s' hs' hunused =>
            (Fades.put (hother s' hs') l _).mp (hall s' hs' hunused)⟩, h⟩
        · rw [Fades.put (hother s' hs')] at hnot
          rw [flaw_put (hother s' hs')] at h
          exact Or.inr ⟨s', List.mem_cons_of_mem s hs', hunused, hnot, h⟩
      · rw [hone]
        exact ⟨l, _, fun hp => hp.ticked s l,
          Or.inr ⟨s, List.mem_cons_self, hused, hnot, rfl⟩⟩

/-- **Fading succeeds** exactly if the counters of the skills that were not used have logarithms. In
any case it leaves everything but the skills and their counters. -/
theorem fade_spec (used : List Skill) (p : Personality R) : ∃ l r,
    (p.Counted → (p.practised l r).Counted) ∧
    (((∀ s ∉ used, p.Fades s) ∧ fade used p = (.ok (), p.practised l r)) ∨
      ∃ s ∉ used, ¬ p.Fades s ∧ fade used p = (.error (p.flaw s), p.practised l r)) := by
  obtain ⟨l, r, hcounted, h⟩ := fadeAll_spec used Skill.all p (by decide)
  refine ⟨l, r, hcounted, ?_⟩
  rcases h with ⟨hall, h⟩ | ⟨s, -, h⟩
  · exact Or.inl ⟨fun s => hall s s.mem_all, h⟩
  · exact Or.inr ⟨s, h⟩

/-- Growing resets the counters of what was used, and no others. -/
theorem fades_upgrade {p : Personality R} {delta : Language R} {s : Skill} (h : s ∉ delta.used) :
    (p.upgrade delta).Fades s ↔ p.Fades s := by
  have key : ∀ (skills : List Skill) (p : Personality R), s ∉ skills →
      ((skills.foldl (exercise delta) p).Fades s ↔ p.Fades s) := by
    intro skills
    induction skills with
    | nil => exact fun p _ => Iff.rfl
    | cons s' rest ih =>
      intro p hs
      rw [List.mem_cons, not_or] at hs
      exact (ih _ hs.2).trans (Fades.put hs.1 _ 0)
  exact key delta.used p h

end Scalars

/-! ## 3. Fading over the real numbers -/

variable {p : Personality ℝ}

theorem fades_real {s : Skill} : p.Fades s ↔ -1 ≤ p.idle s := by
  unfold Fades
  rw [Scalar.isFinite_real, idleFor_eq]
  constructor
  · rintro ⟨-, h⟩
    omega
  · exact fun h => ⟨rfl, by omega⟩

/-- **Fading succeeds** where every counter has a logarithm. -/
theorem fade_of_counted (h : p.Counted) (used : List Skill) : ∃ l r,
    fade used p = (.ok (), p.practised l r) ∧ (p.practised l r).Counted := by
  obtain ⟨l, r, hcounted, ⟨-, hfade⟩ | ⟨s, -, hnot, -⟩⟩ := fade_spec used p
  · exact ⟨l, r, hfade, hcounted h⟩
  · exact absurd (fades_real.mpr (h s)) hnot

/-- **A counter below minus one has no logarithm**, unless its skill was used. -/
theorem fade_fault {s : Skill} (hs : p.idle s < -1) {used : List Skill} (hused : s ∉ used) :
    ∃ q, fade used p = (.error .noLogarithm, q) := by
  obtain ⟨l, r, -, ⟨hall, -⟩ | ⟨s', -, -, hfade⟩⟩ := fade_spec used p
  · have := fades_real.mp (hall s hused)
    omega
  · exact ⟨_, hfade⟩

end Personality

/-! ## 4. Edits -/

/-- A refusal is noted, and nothing else. -/
theorem Personality.refuse_eq {R : Type} (p : Personality R) (name : String) :
    p.refuse name = { p with refused := (p.refuse name).refused } := by
  unfold refuse
  split <;> rfl

namespace Operation

/-- **Adding** does nothing, or puts one on and changes the pantry, or notes a refusal. -/
theorem applyAdd_cases {R : Type} (i : Ingredient) (r : Relative) (s : Sandwich)
    (p : Personality R) :
    applyAdd i r s p = (s, p) ∨
    (∃ place inventory, applyAdd i r s p =
      ({ s with ingredients := s.ingredients.insertIdx place i.leaf },
        { p with inventory := inventory })) ∨
    ∃ refused, applyAdd i r s p = (s, { p with refused := refused }) := by
  unfold applyAdd
  split
  · exact Or.inl rfl
  · rename_i place _
    unfold Personality.take
    by_cases hunlimited : p.unlimitedStock = true
    · rw [if_pos hunlimited]
      exact Or.inr (Or.inl ⟨place, _, rfl⟩)
    · rw [if_neg hunlimited]
      by_cases hnone : p.units i.name ≤ 0
      · rw [if_pos hnone]
        exact Or.inr (Or.inr ⟨_, congrArg (Prod.mk s) (p.refuse_eq i.name)⟩)
      · rw [if_neg hnone]
        exact Or.inr (Or.inl ⟨place, _, rfl⟩)

/-- **What every single edit preserves, any operation preserves.** -/
theorem apply_invariant {R : Type} [Scalar R] {P : Sandwich → Personality R → Prop}
    (hadd : ∀ i r s p, P s p → P (applyAdd i r s p).1 (applyAdd i r s p).2)
    (hremove : ∀ i s p, P s p → P (withoutFirst i s) p ∧ P (withoutAny i s) p)
    (hensure : ∀ i s p, P s p → P (withEnsured i s) p)
    (haffirm : ∀ s p, P s p → P s (p.reinforce Personality.confirmationRate p.lastLex).1)
    (hfinish : ∀ s p, P s p → P { s with complete := true } p) :
    ∀ (x : Operation) (s : Sandwich) (p : Personality R), P s p →
      P (x.apply (s, p)).1 (x.apply (s, p)).2 := by
  intro x
  induction x with
  | add i r => exact hadd i r
  | remove i => exact fun s p h => (hremove i s p h).1
  | removeAll i => exact fun s p h => (hremove i s p h).2
  | repeated n x ih =>
    intro s p h
    have hrepeat : ∀ n : Nat, P (n.repeat (apply x) (s, p)).1 (n.repeat (apply x) (s, p)).2 := by
      intro n
      induction n with
      | zero => exact h
      | succ n ihn => exact ih _ _ ihn
    exact hrepeat n
  | compound x y ihx ihy => exact fun s p h => ihy _ _ (ihx s p h)
  | ensure i => exact hensure i
  | persist x ih => exact ih
  | affirm => exact haffirm
  | negate => exact fun s p h => h
  | checkFor i => exact fun s p h => h
  | finish => exact hfinish

end Operation

end DeliTalk
