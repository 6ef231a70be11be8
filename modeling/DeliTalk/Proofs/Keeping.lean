import DeliTalk.Proofs.Escapes
import DeliTalk.Proofs.Incidents
import DeliTalk.Proofs.Reckoning
import DeliTalk.Proofs.Replies
import DeliTalk.Proofs.Storing

/-!
# A machine that was saved comes back

Whatever a machine goes through, its dispositions stay shares, its likes and dislikes stay as they
are, the senses it knows keep weights above zero, and what it remembers are sandwiches. So there is
no moment at which it would be saved and then not be loaded.

* `Personality.Storable`, `Storable.relieved`, `Storable.reinforce` and the others: what each change
  of a personality leaves true of it.
* `Order.leaves_next_storable`, `Order.storable_serve`, `Grammar.storable_parse`: turns and readings.
* `Table.Lives`: what a machine may go through.
* `Table.saved_loads`: it is loaded as it was saved.
-/

namespace DeliTalk

open Act

/-! ## 1. What changes of a personality leave true -/

theorem Order.isShare_clamped (x : ℝ) : IsShare (clamped x) := by
  have hzero : (0.0 : ℝ) = 0 := by norm_num
  have hone : (1.0 : ℝ) = 1 := by norm_num
  unfold clamped
  rw [Scalar.least_real, Scalar.greatest_real, hzero, hone]
  exact ⟨le_min zero_le_one (le_max_left 0 x), min_le_left 1 _⟩

/-- Of what a register holds after a write, only what was written is new. -/
theorem Register.mem_put {V : Type} {name : String} {value : V} {q : String × V} :
    ∀ {r : Register V}, q ∈ put name value r → q ∈ r ∨ q.2 = value
  | [], h => by
    rw [put, List.mem_singleton] at h
    exact Or.inr (by rw [h])
  | (key, old) :: rest, h => by
    unfold put at h
    by_cases hkey : key = name
    · rw [if_pos hkey] at h
      rcases List.mem_cons.mp h with rfl | h
      · exact Or.inr rfl
      · exact Or.inl (List.mem_cons_of_mem _ h)
    · rw [if_neg hkey] at h
      rcases List.mem_cons.mp h with rfl | h
      · exact Or.inl List.mem_cons_self
      · exact (mem_put h).imp_left (List.mem_cons_of_mem _)

namespace Personality

/-- What is left of a list is in it. -/
theorem mem_of_mem_lastPart {α : Type} {limit : Int} {xs : List α} {a : α}
    (h : a ∈ lastPart limit xs) : a ∈ xs := by
  unfold lastPart at h
  split at h <;> exact List.mem_of_mem_drop h

namespace Storable

variable {p : Personality ℝ}

theorem practised (h : p.Storable) (l : Language ℝ) (r : Register Int) :
    (p.practised l r).Storable := ⟨h.shares, h.preferences, h.history, h.weights⟩

theorem isShare_spite (h : p.Storable) : IsShare p.spite :=
  h.shares _ (by simp [Personality.shares])

theorem isShare_stress (h : p.Storable) : IsShare p.stress :=
  h.shares _ (by simp [Personality.shares])

/-- A machine in another temper. -/
theorem tempered (h : p.Storable) {spite stress : ℝ} (hspite : IsShare spite)
    (hstress : IsShare stress) :
    ({ p with spite := spite, stress := stress } : Personality ℝ).Storable := by
  refine ⟨?_, h.preferences, h.history, h.weights⟩
  have hshares := h.shares
  simp only [Personality.shares, List.forall_mem_cons] at hshares ⊢
  obtain ⟨h₁, h₂, h₃, h₄, -, h₆, h₇, h₈, -, hnone⟩ := hshares
  exact ⟨h₁, h₂, h₃, h₄, hspite, h₆, h₇, h₈, hstress, hnone⟩

theorem relieved (h : p.Storable) : (Order.relieved p).Storable :=
  h.tempered h.isShare_spite (Order.isShare_clamped _)

theorem annoyed (h : p.Storable) : (Order.annoyed p).Storable :=
  h.tempered h.isShare_spite (Order.isShare_clamped _)

/-- A machine that knows other senses. -/
theorem versed (h : p.Storable) {cloud : Register (List (Meaning ℝ))}
    (hcloud : ∀ c ∈ cloud, ∀ m ∈ c.2, 0 < m.weight) :
    ({ p with cloud := cloud } : Personality ℝ).Storable :=
  ⟨h.shares, h.preferences, h.history, hcloud⟩

theorem overhears {q : Personality ℝ} {entries : List Entry} {ws : List String} (h : p.Storable)
    (hears : p.Overhears entries ws q) : q.Storable := by
  obtain ⟨fresh, -, -, rfl⟩ := hears
  refine h.versed fun c hc m hm => ?_
  rcases List.mem_append.mp hc with hc | hc
  · exact h.weights c hc m hm
  · obtain ⟨w, -, rfl⟩ := List.mem_map.mp hc
    obtain ⟨e, -, rfl⟩ := List.mem_map.mp hm
    show (0 : ℝ) < 1.0
    norm_num

theorem reinforceWord (h : p.Storable) (w : LexedWord) :
    (Personality.reinforceWord confirmationRate p w).1.Storable := by
  unfold Personality.reinforceWord
  split
  · rename_i entry senses _ hsenses
    have hsound := h.weights _ (Register.mem_keys_of_find? hsenses)
    have hmore := (strengthen_spec entry senses hsound).2
    refine h.versed fun c hc => ?_
    rcases Register.mem_put hc with hc | hc
    · exact h.weights c hc
    · rwa [hc]
  · exact h

theorem reinforce : ∀ (reading : List LexedWord) {p : Personality ℝ}, p.Storable →
    (p.reinforce confirmationRate reading).1.Storable
  | [], _, h => h
  | w :: rest, _, h => by
    rw [reinforce_cons]
    exact Storable.reinforce rest (h.reinforceWord w)

/-- **Any operation** leaves a machine that can be saved. -/
theorem apply (h : p.Storable) (x : Operation) (s : Sandwich) :
    (x.apply (s, p)).2.Storable := by
  refine Operation.apply_invariant (P := fun _ q => q.Storable) ?_ ?_ ?_ ?_ ?_ x s p h
  · intro i r s q hq
    have hpantry : ∀ inventory refused,
        ({ q with inventory := inventory, refused := refused } : Personality ℝ).Storable :=
      fun _ _ => ⟨hq.shares, hq.preferences, hq.history, hq.weights⟩
    rcases Operation.applyAdd_cases i r s q with hadd | ⟨place, inventory, hadd⟩ | ⟨refused, hadd⟩
    · rw [hadd]
      exact hq
    · rw [hadd]
      exact hpantry inventory q.refused
    · rw [hadd]
      exact hpantry q.inventory refused
  · exact fun i s q hq => ⟨hq, hq⟩
  · exact fun i s q hq => hq
  · exact fun s q hq => hq.reinforce q.lastLex
  · exact fun s q hq => hq

theorem reapply : ∀ (standing : List Operation) (s : Sandwich) {p : Personality ℝ}, p.Storable →
    (Order.reapply standing (s, p)).2.Storable
  | [], _, _, h => h
  | x :: rest, s, p, h => reapply rest (x.apply (s, p)).1 (h.apply x s)

theorem remember (h : p.Storable) {s : Sandwich} (hs : s.Storable) (limit : Int) :
    (p.remember s limit).Storable := by
  refine ⟨h.shares, h.preferences, ?_, h.weights⟩
  intro r hr
  rcases List.mem_append.mp (mem_of_mem_lastPart hr) with hr | hr
  · exact h.history r hr
  · rwa [List.mem_singleton.mp hr]

theorem upgrade (h : p.Storable) (delta : Language ℝ) : (p.upgrade delta).Storable := by
  obtain ⟨l, r, hupgrade, -⟩ := p.upgrade_spec delta
  rw [hupgrade]
  exact h.practised l r

theorem fade (h : p.Storable) (used : List Skill) : (p.fade used).2.Storable := by
  obtain ⟨l, r, -, hfade⟩ := p.fade_spec used
  rcases hfade with ⟨-, hfade⟩ | ⟨s, -, -, hfade⟩
  · rw [hfade]
    exact h.practised l r
  · rw [hfade]
    exact h.practised l r

end Storable

end Personality

/-! ## 2. What turns and readings leave true -/

/-- A table whose machine could be saved now. -/
def Table.Storable (t : Table ℝ) : Prop := t.mind.personality.Storable

namespace Order

variable {t : Table ℝ}

theorem leaves_fade_storable (h : t.Storable) (used : List Skill) :
    Leaves (Table.minded (Mind.fade used)) t Table.Storable := by
  have hfade := Personality.Storable.fade h used
  unfold Leaves Ends
  rw [perform_fade]
  generalize t.mind.personality.fade used = faded at hfade
  obtain ⟨r, p⟩ := faded
  cases r <;> exact hfade

theorem leaves_learn_storable (h : t.Storable) (last : Operation) (result : Sandwich) :
    Leaves (learn last result) t Table.Storable := by
  unfold learn
  refine ends_bind.mpr (ends_get.mpr ?_)
  by_cases hsucceeded : t.order.lastSucceeded ℝ result = true
  · rw [if_pos hsucceeded]
    exact (Personality.Storable.upgrade h _).relieved
  · rw [if_neg hsucceeded]
    by_cases hchanges : last.changesSandwich = true
    · rw [if_pos hchanges]
      exact Personality.Storable.annoyed h
    · rw [if_neg hchanges]
      exact h

theorem leaves_proceed_storable (h : t.Storable) (result : Sandwich) (used : List Skill)
    (polite : Bool) : Leaves (proceed result used polite) t Table.Storable := by
  unfold proceed
  refine leaves_bind (leaves_fade_storable h used) fun _ t₁ h₁ => ?_
  refine ends_bind.mpr (ends_get.mpr ?_)
  by_cases hgaveUp : t₁.order.gaveUp = true
  · rw [if_pos hgaveUp]
    exact h₁
  · rw [if_neg hgaveUp]
    cases polite with
    | true => exact h₁
    | false =>
      have hpick : Leaves (pick result) t₁ Table.Storable :=
        (leaves_pick_rewishedAt result t₁).mono (fun _ _ h => by rwa [Table.Storable, h.2])
          fun _ _ h => by rwa [Table.Storable, h.2]
      refine leaves_bind hpick fun a t₂ h₂ => ?_
      cases a with
      | some x => exact h₂
      | none => exact h₂

/-- **A turn of the customer** leaves a machine that can be saved, however it ends. -/
theorem leaves_next_storable (h : t.Storable) (result : Sandwich) :
    Leaves (next result) t Table.Storable := by
  unfold next
  refine ends_bind.mpr (ends_get.mpr ?_)
  simp only
  split
  · by_cases hfailed : t.order.questionFailed ℝ result = true
    · rw [if_pos hfailed]
      exact h
    · rw [if_neg hfailed]
      refine leaves_bind (leaves_learn_storable h _ result) fun a t₁ h₁ => ?_
      exact leaves_proceed_storable h₁ result a.1 a.2
  · exact leaves_proceed_storable h result [] false

/-- **A turn of the server** leaves a machine that can be saved, whatever was heard and however the
turn ends. -/
theorem storable_serve {heard : Operation} {skills : Language ℝ} {lex : List LexedWord}
    {s : Sandwich} {t' : Table ℝ} {r : Except Fault (Sandwich × Option Operation)} (h : t.Storable)
    (hserve : (serve heard skills lex s).perform t = (r, t')) : t'.Storable := by
  have hwilling : t.mind.personality.willing.Storable :=
    ⟨h.shares, h.preferences, h.history, h.weights⟩
  have hprimed : (t.primed s).2.Storable := by
    have hstanding := hwilling.reapply t.order.standing s
    unfold Table.primed
    simp only
    by_cases hspiteful : t.spiteful = true
    · rw [if_pos hspiteful]
      have hspent : IsShare (0.0 : ℝ) := by
        have hzero : (0.0 : ℝ) = 0 := by norm_num
        rw [hzero]
        exact ⟨le_refl 0, zero_le_one⟩
      exact hstanding.tempered hspent hstanding.isShare_stress
    · rw [if_neg hspiteful]
      exact hstanding
  have hedited : (t.edited heard s).2.Storable := hprimed.apply (t.heeds heard) (t.primed s).1
  obtain ⟨l, k, ⟨-, hp⟩ | ⟨-, hp⟩⟩ := serve_cases hserve
  · rw [Table.Storable, hp]
    have hpractised := hedited.practised l k
    exact ⟨hpractised.shares, hpractised.preferences, hpractised.history, hpractised.weights⟩
  · rw [Table.Storable, hp]
    exact hedited.practised l k

end Order

/-- **A text that is read** leaves a machine that can be saved, whether it is understood or not. -/
theorem Grammar.storable_parse {g : Grammar} {probabilistic : Bool} {text : String}
    {m m' : Mind ℝ} {r : Except Fault (Reading ℝ)} (h : m.personality.Storable)
    (hparse : (g.parse probabilistic text).perform m = (r, m')) : m'.personality.Storable := by
  have hends := @Grammar.ends_parse_overhears ℝ _ g probabilistic text m
  unfold Ends at hends
  rw [hparse] at hends
  cases r with
  | error e => exact h.overhears hends
  | ok reading => exact h.overhears hends.1

/-! ## 3. What a machine goes through -/

namespace Table

/-- What becomes of a machine, and of the order on its table: it takes turns as a customer and hears
what is said back, it serves whatever it is told with whatever skills were counted and words were
read, it reads texts with any grammar, it remembers sandwiches, and it turns to other orders. A turn
or a reading may fail. -/
inductive Lives : Table ℝ → Table ℝ → Prop where
  | start (t : Table ℝ) : Lives t t
  | asked {t u v : Table ℝ} {result : Sandwich} {r : Except Fault (Option Operation)}
      (h : Lives t u) (hnext : (Order.next result).perform u = (r, v)) : Lives t v
  | heard {t u : Table ℝ} (h : Lives t u) (x : Operation) : Lives t ⟨u.order.hear x, u.mind⟩
  | served {t u v : Table ℝ} {x : Operation} {skills : Language ℝ} {lex : List LexedWord}
      {s : Sandwich} {r : Except Fault (Sandwich × Option Operation)} (h : Lives t u)
      (hserve : (Order.serve x skills lex s).perform u = (r, v)) : Lives t v
  | parsed {t u : Table ℝ} {g : Grammar} {probabilistic : Bool} {text : String}
      {r : Except Fault (Reading ℝ)} {m : Mind ℝ} (h : Lives t u)
      (hparse : (g.parse probabilistic text).perform u.mind = (r, m)) : Lives t ⟨u.order, m⟩
  | remembered {t u : Table ℝ} {s : Sandwich} (h : Lives t u) (hs : s.Valid) (limit : Int) :
      Lives t ⟨u.order, u.mind.personality.remember s limit, u.mind.chance⟩
  | turned {t u : Table ℝ} (h : Lives t u) (o : Order) : Lives t ⟨o, u.mind⟩

/-- **Whatever it goes through**, a machine that could be saved can be saved. -/
theorem Lives.storable {t u : Table ℝ} (h : t.Lives u) (ht : t.Storable) : u.Storable := by
  induction h with
  | start => exact ht
  | @asked u v result r _ hnext ih =>
    have hleaves := Order.leaves_next_storable ih result
    unfold Leaves Ends at hleaves
    rw [hnext] at hleaves
    cases r <;> exact hleaves
  | heard _ x ih => exact ih
  | served _ hserve ih => exact Order.storable_serve ih hserve
  | parsed _ hparse ih => exact Grammar.storable_parse ih hparse
  | remembered _ hs limit ih => exact Personality.Storable.remember ih hs.storable limit
  | turned _ o ih => exact ih

/-- **A saved personality is always loaded.** Whatever a machine with a valid personality goes
through, the document it is saved in is accepted, and gives back its personality, without the last
reading, what was refused, and an unlimited stock. -/
theorem saved_loads {t u : Table ℝ} (hvalid : t.mind.personality.Valid) (h : t.Lives u) :
    Personality.load? (.document u.mind.personality.saved) =
      some u.mind.personality.settled :=
  Personality.load_saved_iff.mpr (h.storable hvalid.storable)

namespace House

open Order.House

/-- A server without spite after it was told to put ham on a sandwich. -/
noncomputable def noon : Table ℝ := ((Order.serve (.add ham .top) .unused [] {}).perform bare).2

/-- It said what it wanted itself. -/
noncomputable def afternoon : Table ℝ := ((Order.next {}).perform noon).2

/-- It read a greeting, and remembered an empty sandwich. -/
noncomputable def evening : Table ℝ :=
  let m := ((Grammar.parse ⟨Lexicon.house, 30⟩ true "lo").perform afternoon.mind).2
  ⟨afternoon.order, m.personality.remember {} 10, m.chance⟩

/-- It is loaded as it was saved that evening. -/
theorem saved_loads_evening : bare.mind.personality.Valid ∧ bare.Lives evening ∧
    Personality.load? (.document evening.mind.personality.saved) =
      some evening.mind.personality.settled := by
  have hstorable : bare.mind.personality.Storable := by
    refine ⟨?_, nofun, nofun, nofun⟩
    simp only [Personality.shares, List.forall_mem_cons]
    norm_num [IsShare, bare, Personality.standard]
  have hvalid : bare.mind.personality.Valid := hstorable.valid_settled
  have hempty : ({} : Sandwich).Valid := ⟨.map [], rfl⟩
  have hnoon : bare.Lives noon := .served (.start bare) Prod.mk.eta.symm
  have hafternoon : bare.Lives afternoon := .asked hnoon Prod.mk.eta.symm
  have hevening : bare.Lives evening := .remembered (.parsed hafternoon Prod.mk.eta.symm) hempty 10
  exact ⟨hvalid, hevening, saved_loads hvalid hevening⟩

end House

end Table

end DeliTalk
