import DeliTalk.Proofs.Replies

/-!
# What is imagined is what comes about

A customer judges the last operation by imagining what it would have done with everything in stock.
A real pantry runs out somewhere between the steps, but only a refusal shows on the sandwich: two
machines that edit the same sandwich, one of which has everything, stay side by side until the other
one refuses something.

* `Operation.Abreast`: a machine beside one that has everything in stock, and the same sandwich.
* `Operation.Abreast.apply`: an operation that refuses nothing keeps them abreast.
* `Order.imagined`: an operation nothing of which is refused does what was imagined, and the
  customer that asked for it counts it as a success if and only if it changes the sandwich.
-/

namespace DeliTalk

/-- Who has just refused something has refused something. -/
theorem Personality.refused_refuse_ne {R : Type} (p : Personality R) (name : String) :
    (p.refuse name).refused ≠ [] := by
  unfold refuse
  split
  · rename_i hmem
    exact List.ne_nil_of_mem hmem
  · exact List.append_ne_nil_of_right_ne_nil _ (List.cons_ne_nil name [])

namespace Operation

variable {R : Type} [Scalar R]

/-- What is refused stays refused, so where nothing is refused in the end nothing was before. -/
theorem refused_of_apply {x : Operation} {sp : Sandwich × Personality R}
    (h : (x.apply sp).2.refused = []) : sp.2.refused = [] := by
  refine List.eq_nil_iff_forall_not_mem.mpr fun name hname => ?_
  have hafter := ((x.accounts sp).refused name).mpr (Or.inl hname)
  rw [h] at hafter
  cases hafter

/-- The same sandwich in front of two machines, the second of which has everything in stock. -/
structure Abreast (sp sq : Sandwich × Personality R) : Prop where
  sandwich : sp.1 = sq.1
  unlimited : sq.2.unlimitedStock = true

namespace Abreast

variable {sp sq : Sandwich × Personality R}

/-- Who has everything in stock still has it after an edit. -/
theorem of_sandwich (h : Abreast sp sq) {x : Operation}
    (hx : (x.apply sp).1 = (x.apply sq).1) : Abreast (x.apply sp) (x.apply sq) :=
  ⟨hx, (x.accounts sq).limited.trans h.unlimited⟩

/-- What can be taken from a pantry goes where it goes for a machine that has everything. -/
theorem add (h : Abreast sp sq) {i : Ingredient} {r : Relative}
    (hrefused : ((Operation.add i r).apply sp).2.refused = []) :
    Abreast ((Operation.add i r).apply sp) ((Operation.add i r).apply sq) := by
  refine h.of_sandwich ?_
  obtain ⟨s, p⟩ := sp
  obtain ⟨s', q⟩ := sq
  obtain rfl : s = s' := h.sandwich
  show (applyAdd i r s p).1 = (applyAdd i r s q).1
  change (applyAdd i r s p).2.refused = [] at hrefused
  have htake : q.take i.name = (true, q) := if_pos h.unlimited
  unfold applyAdd at hrefused ⊢
  cases hplace : insertionPoint r s.ingredients with
  | none => rfl
  | some place =>
    simp only [hplace] at hrefused
    generalize p.take i.name = taken at hrefused ⊢
    rw [htake]
    match taken, hrefused with
    | (true, _), _ => rfl
    | (false, p'), hrefused => exact absurd hrefused (p'.refused_refuse_ne i.name)

/-- **An operation that refuses nothing** keeps two machines abreast. -/
theorem apply {x : Operation} (h : Abreast sp sq) (hrefused : (x.apply sp).2.refused = []) :
    Abreast (x.apply sp) (x.apply sq) := by
  induction x generalizing sp sq with
  | add i r => exact h.add hrefused
  | remove i => exact h.of_sandwich (congrArg (withoutFirst i) h.sandwich)
  | removeAll i => exact h.of_sandwich (congrArg (withoutAny i) h.sandwich)
  | ensure i => exact h.of_sandwich (congrArg (withEnsured i) h.sandwich)
  | repeated n x ih =>
    -- nothing is refused any of the times before
    have hrepeat : ∀ n : Nat, (n.repeat x.apply sp).2.refused = [] →
        Abreast (n.repeat x.apply sp) (n.repeat x.apply sq) := by
      intro n
      induction n with
      | zero => exact fun _ => h
      | succ n ihn => exact fun hrefused => ih (ihn (refused_of_apply hrefused)) hrefused
    exact hrepeat n hrefused
  | compound x y ihx ihy => exact ihy (ihx h (refused_of_apply hrefused)) hrefused
  | persist x ih => exact ih h hrefused
  | affirm => exact h.of_sandwich h.sandwich
  | negate => exact h
  | checkFor i => exact h
  | finish => exact h.of_sandwich (congrArg ({ · with complete := true }) h.sandwich)

end Abreast

/-- Where nothing is refused, what comes about is what was imagined. -/
theorem apply_eq_imagine {x : Operation} {s : Sandwich} {p : Personality R}
    (h : (x.apply (s, p)).2.refused = []) : (x.apply (s, p)).1 = x.imagine R s := by
  have habreast : Abreast (s, p) (s, (Personality.dreamer : Personality R)) := ⟨rfl, rfl⟩
  exact (habreast.apply h).sandwich

end Operation

namespace Order

open Operation

variable {R : Type} [Scalar R]

/-- A customer is content if the sandwich changed, and the way it had imagined. -/
theorem lastSucceeded_archive (o : Order) (x : Operation) (s s' : Sandwich) :
    (o.archive x s).lastSucceeded R s' = true ↔
      s'.names ≠ s.names ∧ s'.names = (x.imagine R s).names := by
  simp [archive, lastSucceeded]

/-- A kind server that keeps nothing in force and refuses nothing makes what was imagined. -/
theorem served_eq_imagine {x : Operation} {skills : Language R} {lex : List LexedWord}
    {s s' : Sandwich} {t t' : Table R} {answer : Option Operation}
    (hstanding : t.order.standing = []) (hkind : t.spiteful = false)
    (hserve : (serve x skills lex s).perform t = (.ok (s', answer), t'))
    (hrefused : t'.mind.personality.refused = []) : s' = x.imagine R s := by
  obtain ⟨hs', -, l, r, hp⟩ := serve_ok hserve
  have hedited : t.edited x s = x.apply (s, t.mind.personality.willing) := by
    unfold Table.edited
    rw [Table.heeds_of_kind hkind, Table.primed_of_kind hkind, hstanding]
    rfl
  rw [hedited] at hs' hp
  rw [hp] at hrefused
  exact hs'.trans (apply_eq_imagine hrefused)

/-- **Imagination agrees with reality where nothing is refused**: the sandwich is the same in every
field. So when a server that keeps nothing in force and is not spiteful serves what a customer
asked for, and refuses nothing of it, it makes what the customer had imagined, and the customer
counts the operation as a success if and only if it changes what is on the sandwich. -/
theorem imagined (x : Operation) (s : Sandwich) :
    (∀ p : Personality R, p.refused = [] → (x.apply (s, p)).2.refused = [] →
      (x.apply (s, p)).1 = x.imagine R s) ∧
    ∀ (o : Order) (t t' : Table R) (skills : Language R) (lex : List LexedWord) (s' : Sandwich)
      (answer : Option Operation), t.order.standing = [] → t.spiteful = false →
      (serve x skills lex s).perform t = (.ok (s', answer), t') →
      t'.mind.personality.refused = [] →
      s' = x.imagine R s ∧
        ((o.archive x s).lastSucceeded R s' = true ↔ s'.names ≠ s.names) := by
  refine ⟨fun p _ hafter => apply_eq_imagine hafter, ?_⟩
  intro o t t' skills lex s' answer hstanding hkind hserve hrefused
  have hs' := served_eq_imagine hstanding hkind hserve hrefused
  refine ⟨hs', (lastSucceeded_archive o x s s').trans (and_iff_left ?_)⟩
  rw [hs']

namespace House

/-- A server that has two hams, and no spite. -/
noncomputable def larder : Table ℝ :=
  ⟨{}, { Personality.standard with spite := 0, inventory := [("ham", 2)] },
    .scripted (fun _ => 0) 0⟩

/-- Two hams. -/
def hams : Operation := .repeated 2 (.add ham .top)

/-- Two hams are asked for and made as imagined, and the customer counts that as a success. -/
theorem imagined_hams :
    (hams.apply ({}, larder.mind.personality)).1 = hams.imagine ℝ {} ∧
    ∃ s' answer t', (serve hams .unused [] {}).perform larder = (.ok (s', answer), t') ∧
      s'.names = ["ham", "ham"] ∧ (({} : Order).archive hams {}).lastSucceeded ℝ s' = true := by
  have hcounted : larder.mind.personality.Counted := fun skill => by
    show -1 ≤ (Register.find? skill.name []).getD 0
    exact Int.neg_le_of_neg_le (Int.zero_le_ofNat 1)
  have hchance : larder.mind.chance.Proper := fun _ => ⟨le_refl 0, zero_lt_one⟩
  have hhosts : larder.Hosts [] 0 := ⟨rfl, rfl, ⟨hcounted, hchance⟩, Or.inr nofun⟩
  have hstock : larder.mind.personality.willing.Stocks ham.name 2 := Or.inr (le_refl 2)
  obtain ⟨q, happly, ⟨inventory, rfl⟩, -⟩ := apply_portion (.several 2) {} hstock
  obtain ⟨⟨s', answer⟩, t', hserve, hp, -, -, l, r, hmind⟩ :=
    (ends_serve_kind hhosts rfl happly hcounted .unused []).exists
  obtain rfl : s' = topped {} ham 2 := congrArg Prod.fst hp
  have hrefused : t'.mind.personality.refused = [] := by
    rw [hmind]
    rfl
  have hafter : (hams.apply ({}, larder.mind.personality.willing)).2.refused = [] := by
    rw [hams, happly]
    rfl
  have hkind : larder.spiteful = false := Table.not_spiteful rfl hchance
  obtain ⟨hpantry, hserved⟩ := imagined (R := ℝ) hams {}
  refine ⟨hpantry larder.mind.personality.willing rfl hafter, topped {} ham 2, answer, t', hserve,
    rfl, ?_⟩
  exact (hserved {} larder t' .unused [] _ answer rfl hkind hserve hrefused).2.mpr (by decide)

end House

end Order

end DeliTalk
