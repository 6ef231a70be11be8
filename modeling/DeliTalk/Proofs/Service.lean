import DeliTalk.Proofs.Requests
import DeliTalk.Proofs.Rounds

/-!
# The server serves anything

Whatever a server understood, it serves it without a fault, as long as its counters have
logarithms. What it makes is made of leaves, and it stays able to go on.

* `Operation.apply_plain`: edits keep a sandwich of leaves, and the counters.
* `Order.ends_serve`: one turn of the server.
* `Order.maxCount_hear`: what the customer hears does not change how much it asks for at once.
-/

namespace DeliTalk

open Act

namespace Operation

theorem children_insertIdx {i : Ingredient} {cs : List Ingredient} {k : Nat}
    (h : ∀ j ∈ cs, j.children = none) : ∀ j ∈ cs.insertIdx k i.leaf, j.children = none := by
  intro j hj
  rcases List.eq_or_mem_of_mem_insertIdx hj with rfl | hj
  · rfl
  · exact h j hj

/-- A confirmation changes senses and nothing else. -/
theorem exists_reinforce {R : Type} [Scalar R] (rate : R) : ∀ (reading : List LexedWord)
    (p : Personality R), ∃ cloud, (p.reinforce rate reading).1 = { p with cloud := cloud }
  | [], p => ⟨p.cloud, rfl⟩
  | w :: rest, p => by
    obtain ⟨cloud, hrest⟩ := exists_reinforce rate rest (Personality.reinforceWord rate p w).1
    refine ⟨cloud, ?_⟩
    rw [Personality.reinforce_cons, hrest]
    unfold Personality.reinforceWord
    split <;> rfl

/-- **Any operation** keeps a sandwich of leaves, and the counters. -/
theorem apply_plain (x : Operation) {s : Sandwich} {p : Personality ℝ} (hs : s.Plain)
    (hp : p.Counted) : (x.apply (s, p)).1.Plain ∧ (x.apply (s, p)).2.Counted := by
  refine apply_invariant (P := fun s p => s.Plain ∧ p.Counted) ?_ ?_ ?_ ?_ ?_ x s p ⟨hs, hp⟩
  · rintro i r s p ⟨hs, hp⟩
    rcases applyAdd_cases i r s p with h | ⟨place, inventory, h⟩ | ⟨refused, h⟩
    · rw [h]
      exact ⟨hs, hp⟩
    · rw [h]
      exact ⟨⟨children_insertIdx hs.1, hs.2⟩, hp⟩
    · rw [h]
      exact ⟨hs, hp⟩
  · rintro i s p ⟨hs, hp⟩
    exact ⟨⟨⟨fun j hj => hs.1 j (List.mem_of_mem_eraseP hj), hs.2⟩, hp⟩,
      ⟨fun j hj => hs.1 j (List.mem_of_mem_filter hj), hs.2⟩, hp⟩
  · rintro i s p ⟨hs, hp⟩
    refine ⟨?_, hp⟩
    unfold withEnsured
    split
    · exact hs
    · refine ⟨hs.1, fun j hj => ?_⟩
      rcases List.mem_append.mp hj with hj | hj
      · exact hs.2 j hj
      · rw [List.mem_singleton.mp hj]
        rfl
  · rintro s p ⟨hs, hp⟩
    refine ⟨hs, fun skill => ?_⟩
    obtain ⟨cloud, hcloud⟩ := exists_reinforce (Personality.confirmationRate : ℝ) p.lastLex p
    rw [hcloud]
    exact hp skill
  · rintro s p ⟨hs, hp⟩
    exact ⟨hs, hp⟩

end Operation

namespace Order

/-- The operations in force keep a sandwich of leaves, and the counters. -/
theorem reapply_plain : ∀ (standing : List Operation) {s : Sandwich} {p : Personality ℝ},
    s.Plain → p.Counted →
    (reapply standing (s, p)).1.Plain ∧ (reapply standing (s, p)).2.Counted
  | [], _, _, hs, hp => ⟨hs, hp⟩
  | x :: rest, s, p, hs, hp => by
    obtain ⟨hs', hp'⟩ := x.apply_plain hs hp
    exact reapply_plain rest hs' hp'

/-- An edit at a table. -/
theorem ends_edit {f : Sandwich × Personality ℝ → Sandwich × Personality ℝ} {s : Sandwich}
    {t : Table ℝ} {post : Sandwich → Table ℝ → Prop} {flaw : Fault → Table ℝ → Prop} :
    Ends (edit f s) t post flaw ↔ post (f (s, t.mind.personality)).1
      (t.withPersonality (f (s, t.mind.personality)).2) := Iff.rfl

/-- A server that can go on. -/
def Serves (s : Sandwich) (t : Table ℝ) : Prop := s.Plain ∧ t.mind.Ready

theorem Serves.withPersonality {s s' : Sandwich} {t : Table ℝ} (h : Serves s t) (hs : s'.Plain)
    {p : Personality ℝ} (hp : p.Counted) : Serves s' (t.withPersonality p) :=
  ⟨hs, hp, h.2.chance⟩

theorem ends_spited {s : Sandwich} {t : Table ℝ} (h : Serves s t) (x : Operation) :
    Ends (spited x) t (fun _ t' => Serves s t') never := by
  unfold spited
  rw [ends_bind, ends_get, ends_bind]
  refine (Table.ends_lucky (yields_roll _) h.2.chance).imp ?_
  rintro spiteful _ ⟨-, c, hc, rfl⟩
  have h' : Serves s (t.withChance c) := ⟨h.1, h.2.counted, hc⟩
  split
  · rw [ends_bind, Table.ends_change]
    exact h'.withPersonality h'.1 h'.2.counted
  · exact h'

/-- **The server serves anything.** -/
theorem ends_serve {s : Sandwich} {t : Table ℝ} (h : Serves s t) (heard : Operation)
    (skills : Language ℝ) (lex : List LexedWord) :
    Ends (serve heard skills lex s) t (fun p t' => Serves p.1 t') never := by
  unfold serve
  rw [ends_bind, Table.ends_change, ends_bind, ends_get, ends_bind, ends_edit]
  have h₁ : Serves s (t.withPersonality { t.mind.personality with refused := [] }) :=
    h.withPersonality h.1 h.2.counted
  obtain ⟨hs₂, hp₂⟩ := reapply_plain
    (t.withPersonality { t.mind.personality with refused := [] }).order.standing h₁.1 h₁.2.counted
  have h₂ := h₁.withPersonality hs₂ hp₂
  rw [ends_bind]
  refine (ends_spited h₂ heard).imp fun x t₃ h₃ => ?_
  rw [ends_bind, ends_edit]
  obtain ⟨hs₄, hp₄⟩ := x.apply_plain h₃.1 h₃.2.counted
  rw [ends_bind, Table.ends_change, ends_bind]
  obtain ⟨l, r, hgrown, hcounted⟩ := (x.apply (_, t₃.mind.personality)).2.upgrade_spec skills
  have h₅ := (h₃.withPersonality hs₄ hp₄).withPersonality hs₄ (hcounted hp₄)
  rw [← hgrown] at h₅
  refine (Table.ends_fade h₅.2.counted skills.used).imp fun _ t₆ h₆ => ?_
  obtain ⟨l', r', rfl, hcounted'⟩ := h₆
  have h₆ := h₅.withPersonality hs₄ hcounted'
  rw [ends_bind, Table.ends_change, ends_bind, Table.ends_reorder, ends_bind, ends_get]
  exact ⟨hs₄, h₆.2.counted, h₆.2.chance⟩

theorem maxCount_hear : ∀ (x : Operation) (o : Order), (o.hear x).maxCount = o.maxCount := by
  intro x
  induction x with
  | persist x ih => exact ih
  | repeated n x ih => exact ih
  | compound x y ihx ihy =>
    intro o
    show ((o.hear x).hear y).maxCount = o.maxCount
    rw [ihy, ihx]
  | negate =>
    intro o
    unfold hear
    split <;> rfl
  | _ => exact fun o => rfl

end Order

end DeliTalk
