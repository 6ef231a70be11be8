import DeliTalk.Proofs.Portions

/-!
# What happens while a server works

Every edit of a sandwich comes down to three kinds of incidents: an ingredient is put on, it is
asked for in vain, or it is taken off. The incidents of an operation account for everything that
changes on the sandwich, in the pantry and among what was refused; a turn of the server is what is
in force applied again, then the instruction or its opposite, and learning, which touches neither.

* `Operation.incidents`: what happens while an operation is applied.
* `Accounts`: what changed, changed by these incidents and by nothing else.
* `Operation.accounts`: every operation accounts for what it does.
* `Table.incidents`, `Table.edited`: the same for a turn.
* `Order.perform_serve`: a turn of the server, in one equation.
-/

namespace DeliTalk

/-! ## 1. Incidents -/

/-- What may happen to one ingredient of a name. -/
inductive Incident where
  | put (name : String)
  | lacked (name : String)
  | tookOff (name : String)
deriving Repr, DecidableEq

section

variable {R : Type} [Scalar R]

/-- What happens while an operation is applied, in order. -/
def Operation.incidents : Operation → Sandwich × Personality R → List Incident
  | add i r, (s, p) =>
    match insertionPoint r s.ingredients with
    | none => []
    | some _ => if (p.take i.name).1 then [.put i.name] else [.lacked i.name]
  | remove i, (s, _) => if s.contains i then [.tookOff i.name] else []
  | removeAll i, (s, _) => List.replicate (s.count i.name) (.tookOff i.name)
  | repeated n x, sp => (List.range n).flatMap fun k => incidents x (k.repeat x.apply sp)
  | compound x y, sp => incidents x sp ++ incidents y (x.apply sp)
  | persist x, sp => incidents x sp
  | _, _ => []

/-- What happens while the operations in force are applied again. -/
def Order.incidents : List Operation → Sandwich × Personality R → List Incident
  | [], _ => []
  | x :: rest, sp => x.incidents sp ++ incidents rest (x.apply sp)

end

/-! ## 2. Accounts -/

section

variable {R : Type}

/-- Whether a sandwich and a machine changed by some incidents, and by nothing else: what is on the
sandwich and what is left in the pantry are told by what was put on and taken off, and what is
refused by what was lacked. Only what is in stock is put on, and what was lacked stays lacking. -/
structure Accounts (sp : Sandwich × Personality R) (l : List Incident)
    (sp' : Sandwich × Personality R) : Prop where
  count (name : String) :
    sp'.1.count name + l.count (.tookOff name) = sp.1.count name + l.count (.put name)
  limited : sp'.2.unlimitedStock = sp.2.unlimitedStock
  units (name : String) : sp.2.unlimitedStock = false →
    sp'.2.units name + l.count (.put name) = sp.2.units name
  nonneg (name : String) : sp.2.unlimitedStock = false → 0 ≤ sp.2.units name →
    0 ≤ sp'.2.units name
  stocked (name : String) : .put name ∈ l → (sp.2.stock name).isPositive = true
  lacked (name : String) : .lacked name ∈ l → (sp'.2.stock name).isPositive = false
  refused (name : String) : name ∈ sp'.2.refused ↔ name ∈ sp.2.refused ∨ .lacked name ∈ l

namespace Accounts

variable {sp sp' sp'' : Sandwich × Personality R} {l l' : List Incident}

/-- Where nothing happens, the sandwich, the pantry and what was refused stay the same. -/
theorem nothing (hnames : sp'.1.names = sp.1.names) (hinventory : sp'.2.inventory = sp.2.inventory)
    (hlimited : sp'.2.unlimitedStock = sp.2.unlimitedStock)
    (hrefused : sp'.2.refused = sp.2.refused) : Accounts sp [] sp' := by
  have hunits : ∀ name, sp'.2.units name = sp.2.units name := fun name => by
    rw [Personality.units, Personality.units, hinventory]
  refine ⟨fun name => ?_, hlimited, fun name _ => ?_, fun name _ h => ?_, fun name h => ?_,
    fun name h => ?_, fun name => ?_⟩
  · simp [Sandwich.count, hnames]
  · simp [hunits]
  · rwa [hunits]
  · cases h
  · cases h
  · simp [hrefused]

theorem refl (sp : Sandwich × Personality R) : Accounts sp [] sp := nothing rfl rfl rfl rfl

/-- What is in stock after some incidents was in stock before. -/
theorem isPositive (h : Accounts sp l sp') {name : String}
    (hstock : (sp'.2.stock name).isPositive = true) : (sp.2.stock name).isPositive = true := by
  unfold Personality.stock at hstock ⊢
  rw [h.limited] at hstock
  split at hstock
  · rw [if_pos ‹_›]
    rfl
  · rename_i hlimited
    have hunits := h.units name (Bool.eq_false_iff.mpr hlimited)
    rw [if_neg hlimited]
    simp only [Stock.isPositive, decide_eq_true_eq] at hstock ⊢
    omega

/-- **One thing after the other.** -/
theorem trans (h : Accounts sp l sp') (h' : Accounts sp' l' sp'') : Accounts sp (l ++ l') sp'' := by
  refine ⟨fun name => ?_, h'.limited.trans h.limited, fun name hlimited => ?_,
    fun name hlimited hn => ?_, fun name hput => ?_, fun name hlack => ?_,
    fun name => ?_⟩
  · have := h.count name
    have := h'.count name
    rw [List.count_append, List.count_append]
    omega
  · have := h.units name hlimited
    have := h'.units name (h.limited.trans hlimited)
    rw [List.count_append]
    push_cast
    omega
  · exact h'.nonneg name (h.limited.trans hlimited) (h.nonneg name hlimited hn)
  · rcases List.mem_append.mp hput with hput | hput
    · exact h.stocked name hput
    · exact h.isPositive (h'.stocked name hput)
  · rcases List.mem_append.mp hlack with hlack | hlack
    · -- what is lacking stays lacking, since nothing is put back
      have hnone := h.lacked name hlack
      exact Bool.eq_false_iff.mpr fun hstock => by
        rw [h'.isPositive hstock] at hnone
        cases hnone
    · exact h'.lacked name hlack
  · rw [h'.refused, h.refused, List.mem_append, or_assoc]

end Accounts

end

/-! ## 3. What every operation does -/

namespace Operation

variable {R : Type}

theorem insertionPoint_le {r : Relative} {cs : List Ingredient} {place : Nat}
    (h : insertionPoint r cs = some place) : place ≤ cs.length := by
  have hanchored : ∀ {k : Nat}, insertionPoint.anchored r cs = some k → k < cs.length := by
    intro k hk
    obtain ⟨a, -, hk⟩ := Option.bind_eq_some_iff.mp hk
    exact (List.findIdx?_eq_some_iff_getElem.mp hk).1
  unfold insertionPoint at h
  split at h
  · cases h
    exact Nat.le_refl _
  · exact Nat.le_of_lt (hanchored h)
  · obtain ⟨k, hk, rfl⟩ := Option.map_eq_some_iff.mp h
    exact hanchored hk

/-- How much there is of a name after one more of something. -/
theorem count_insertIdx (s : Sandwich) (i : Ingredient) {place : Nat}
    (h : place ≤ s.ingredients.length) (name : String) :
    ({ s with ingredients := s.ingredients.insertIdx place i.leaf } : Sandwich).count name =
      s.count name + [Incident.put i.name].count (.put name) := by
  have hperm := ((List.perm_insertIdx i.leaf s.ingredients h).map (·.name)).count_eq name
  have hcount : ({ s with ingredients := s.ingredients.insertIdx place i.leaf } : Sandwich).count
      name = s.count name + if i.name = name then 1 else 0 := by
    rw [Sandwich.count, Sandwich.names, hperm, List.map_cons, List.count_cons]
    simp [Sandwich.count, Sandwich.names]
  rw [hcount]
  simp [List.count_singleton]

/-- One more of what there is a unit of. -/
theorem accounts_put {s : Sandwich} {p q : Personality R} {i : Ingredient} {place : Nat}
    (hplace : place ≤ s.ingredients.length) (hstock : p.Stocks i.name 1)
    (htakes : p.Takes q i.name 1) :
    Accounts (s, p) [.put i.name]
      ({ s with ingredients := s.ingredients.insertIdx place i.leaf }, q) := by
  obtain ⟨⟨r, rfl⟩, hunits⟩ := htakes
  have hunits : p.unlimitedStock = false → ∀ name, (p.withInventory r).units name =
      p.units name - if name = i.name then 1 else 0 := fun hlimited =>
    hunits.resolve_left (Bool.eq_false_iff.mp hlimited)
  have hstocked : p.unlimitedStock = false → 1 ≤ p.units i.name := fun hlimited =>
    hstock.resolve_left (Bool.eq_false_iff.mp hlimited)
  refine ⟨fun name => ?_, rfl, fun name hlimited => ?_, fun name hlimited hn => ?_,
    fun name h => ?_, fun name h => ?_, fun name => ?_⟩
  · rw [count_insertIdx s i hplace]
    simp
  · show (p.withInventory r).units name + _ = p.units name
    rw [hunits hlimited]
    by_cases h : name = i.name
    · subst h
      simp
    · simp [h, Ne.symm h]
  · show 0 ≤ (p.withInventory r).units name
    have := hstocked hlimited
    rw [hunits hlimited]
    have hn : 0 ≤ p.units name := hn
    split
    · subst name
      omega
    · omega
  · cases List.mem_singleton.mp h
    unfold Personality.stock
    split
    · rfl
    · rename_i hlimited
      exact decide_eq_true (hstocked (Bool.eq_false_iff.mpr hlimited))
  · cases List.mem_singleton.mp h
  · simp [Personality.withInventory]

/-- Nothing at all of what there is no unit of, but it is noted. -/
theorem accounts_lacked {s : Sandwich} {p : Personality R} {i : Ingredient}
    (hstock : ¬ p.Stocks i.name 1) : Accounts (s, p) [.lacked i.name] (s, p.refuse i.name) := by
  have hlimited : p.unlimitedStock = false := Bool.eq_false_iff.mpr fun h => hstock (Or.inl h)
  have hrefused : ∀ name, name ∈ (p.refuse i.name).refused ↔ name ∈ p.refused ∨ i.name = name := by
    intro name
    unfold Personality.refuse
    split
    · rename_i hm
      exact ⟨Or.inl, fun h => h.elim id fun h => h ▸ hm⟩
    · simp [eq_comm]
  rw [p.refuse_eq]
  refine ⟨fun name => by simp, rfl, fun name _ => ?_, fun name _ hn => hn, fun name h => ?_,
    fun name h => ?_, fun name => ?_⟩
  · show p.units name + _ = p.units name
    simp
  · cases List.mem_singleton.mp h
  · cases List.mem_singleton.mp h
    show (p.stock i.name).isPositive = false
    unfold Personality.stock
    rw [hlimited, if_neg Bool.false_ne_true]
    exact decide_eq_false fun h => hstock (Or.inr h)
  · rw [hrefused]
    simp [eq_comm]

theorem accounts_applyAdd (i : Ingredient) (r : Relative) (s : Sandwich) (p : Personality R) :
    Accounts (s, p) (match insertionPoint r s.ingredients with
      | none => []
      | some _ => if (p.take i.name).1 then [.put i.name] else [.lacked i.name])
      (applyAdd i r s p) := by
  unfold applyAdd
  cases hplace : insertionPoint r s.ingredients with
  | none => exact .refl _
  | some place =>
    by_cases hstock : p.Stocks i.name 1
    · obtain ⟨q, htake, htakes⟩ := p.take_spec hstock
      simp only [htake, if_true]
      exact accounts_put (insertionPoint_le hplace) hstock htakes
    · simp only [Personality.take_of_lacking hstock, Bool.false_eq_true, if_false]
      exact accounts_lacked hstock

/-- The first one of a name, if there is one. -/
theorem accounts_withoutFirst (i : Ingredient) (s : Sandwich) (p : Personality R) :
    Accounts (s, p) (if s.contains i then [.tookOff i.name] else []) (withoutFirst i s, p) := by
  split
  · rename_i h
    obtain ⟨j, hj, hsame⟩ := List.any_eq_true.mp h
    obtain ⟨k, l, l', -, hk, hsplit, herase⟩ := List.exists_of_eraseP (p := (·.same i)) hj hsame
    have hname : k.name = i.name := beq_iff_eq.mp hk
    have hbefore : s.names = l.map (·.name) ++ i.name :: l'.map (·.name) := by
      rw [Sandwich.names, hsplit, List.map_append, List.map_cons, hname]
    have hafter : (withoutFirst i s).names = l.map (·.name) ++ l'.map (·.name) := by
      rw [Sandwich.names, withoutFirst, herase, List.map_append]
    refine ⟨fun name => ?_, rfl, fun name _ => ?_, fun name _ hn => hn, fun name h => ?_,
      fun name h => ?_, fun name => ?_⟩
    · simp only [Sandwich.count, hbefore, hafter, List.count_append, List.count_cons]
      by_cases h : i.name = name
      · simp [h]
        omega
      · simp [h]
    · simp
    · simp at h
    · simp at h
    · simp
  · rename_i h
    have hsame : s.ingredients.eraseP (·.same i) = s.ingredients :=
      List.eraseP_of_forall_not fun j hj hsame => h (List.any_eq_true.mpr ⟨j, hj, hsame⟩)
    refine .nothing ?_ rfl rfl rfl
    simp only [Sandwich.names, withoutFirst, hsame]

/-- All there is of a name. -/
theorem accounts_withoutAny (i : Ingredient) (s : Sandwich) (p : Personality R) :
    Accounts (s, p) (List.replicate (s.count i.name) (.tookOff i.name)) (withoutAny i s, p) := by
  have hnames : (withoutAny i s).names = s.names.filter fun name => !(name == i.name) := by
    simp only [Sandwich.names, withoutAny, List.filter_map]
    rfl
  refine ⟨fun name => ?_, rfl, fun name _ => ?_, fun name _ hn => hn, fun name h => ?_,
    fun name h => ?_, fun name => ?_⟩
  · simp only [Sandwich.count, hnames]
    by_cases h : i.name = name
    · subst h
      have hnone : (s.names.filter fun name => !(name == i.name)).count i.name = 0 :=
        List.count_eq_zero.mpr (by simp)
      simp [hnone, List.count_replicate]
    · have hne : ¬ name = i.name := fun heq => h heq.symm
      rw [List.count_filter (by simpa using hne)]
      simp [List.count_replicate, h]
  · simp [List.count_replicate]
  · simp [List.mem_replicate] at h
  · simp [List.mem_replicate] at h
  · simp [List.mem_replicate]

variable [Scalar R]

/-- **Every operation** accounts for what it does. -/
theorem accounts (x : Operation) (sp : Sandwich × Personality R) :
    Accounts sp (x.incidents sp) (x.apply sp) := by
  induction x generalizing sp with
  | add i r => exact accounts_applyAdd i r sp.1 sp.2
  | remove i => exact accounts_withoutFirst i sp.1 sp.2
  | removeAll i => exact accounts_withoutAny i sp.1 sp.2
  | repeated n x ih =>
    -- one time after the other
    have hrepeat : ∀ n : Nat, Accounts sp
        ((List.range n).flatMap fun k => x.incidents (k.repeat x.apply sp)) (n.repeat x.apply sp) := by
      intro n
      induction n with
      | zero => exact .refl sp
      | succ n ihn =>
        rw [List.range_succ, List.flatMap_append, List.flatMap_singleton]
        exact ihn.trans (ih _)
    exact hrepeat n
  | compound x y ihx ihy => exact (ihx sp).trans (ihy _)
  | ensure i =>
    refine .nothing ?_ rfl rfl rfl
    show (withEnsured i sp.1).names = sp.1.names
    unfold withEnsured
    split <;> rfl
  | persist x ih => exact ih sp
  | affirm =>
    obtain ⟨cloud, hcloud⟩ := exists_reinforce (Personality.confirmationRate : R) sp.2.lastLex sp.2
    have happly : affirm.apply sp = (sp.1, { sp.2 with cloud := cloud }) := by
      rw [← hcloud]
      rfl
    rw [happly]
    exact .nothing rfl rfl rfl rfl
  | negate => exact .refl sp
  | checkFor i => exact .refl sp
  | finish => exact .nothing rfl rfl rfl rfl

end Operation

/-- The operations in force account for what they do. -/
theorem Order.accounts_reapply {R : Type} [Scalar R] : ∀ (standing : List Operation)
    (sp : Sandwich × Personality R), Accounts sp (incidents standing sp) (reapply standing sp)
  | [], sp => .refl sp
  | x :: rest, sp => (x.accounts sp).trans (accounts_reapply rest (x.apply sp))

/-! ## 4. What is left alone -/

section

variable {R : Type} [Scalar R]

/-- A machine without its pantry, its senses and what it refused. -/
def Personality.emptied (p : Personality R) : Personality R :=
  { p with inventory := [], cloud := [], refused := [] }

/-- Edits touch the pantry, the senses and what was refused, and nothing else. -/
theorem Operation.emptied_apply (x : Operation) (sp : Sandwich × Personality R) :
    (x.apply sp).2.emptied = sp.2.emptied := by
  refine apply_invariant (P := fun _ q => q.emptied = sp.2.emptied) ?_ ?_ ?_ ?_ ?_ x sp.1 sp.2 rfl
  · intro i r s p h
    rcases applyAdd_cases i r s p with hadd | ⟨place, inventory, hadd⟩ | ⟨refused, hadd⟩
    · rw [hadd]
      exact h
    · rw [hadd]
      exact h
    · rw [hadd]
      exact h
  · exact fun i s p h => ⟨h, h⟩
  · exact fun i s p h => h
  · intro s p h
    obtain ⟨cloud, hcloud⟩ := exists_reinforce (Personality.confirmationRate : R) p.lastLex p
    rw [hcloud]
    exact h
  · exact fun s p h => h

theorem Order.emptied_reapply : ∀ (standing : List Operation) (sp : Sandwich × Personality R),
    (reapply standing sp).2.emptied = sp.2.emptied
  | [], _ => rfl
  | x :: rest, sp => (emptied_reapply rest (x.apply sp)).trans (x.emptied_apply sp)

end

/-! ## 5. A turn of the server -/

namespace Table

variable {R : Type} [Scalar R]

/-- Whether the server turns the next instruction around. -/
def spiteful (t : Table R) : Bool :=
  decide (t.mind.chance.draw.1 < t.mind.personality.spite * t.mind.personality.stress)

/-- What the server makes of an instruction. -/
def heeds (t : Table R) (heard : Operation) : Operation :=
  if t.spiteful then heard.reverse else heard

/-- The sandwich and the machine as the server turns to the instruction: what is in force was
applied again, and spite is gone where it is vented. -/
def primed (t : Table R) (s : Sandwich) : Sandwich × Personality R :=
  let sp := Order.reapply t.order.standing (s, t.mind.personality.willing)
  (sp.1, if t.spiteful then { sp.2 with spite := 0.0 } else sp.2)

/-- The sandwich and the machine after the edits of a turn. -/
def edited (t : Table R) (heard : Operation) (s : Sandwich) : Sandwich × Personality R :=
  (t.heeds heard).apply (t.primed s)

/-- What happens during a turn. -/
def incidents (t : Table R) (heard : Operation) (s : Sandwich) : List Incident :=
  Order.incidents t.order.standing (s, t.mind.personality.willing) ++
    (t.heeds heard).incidents (t.primed s)

section

variable {t : Table R} (h : t.spiteful = false)

include h

/-- Without spite the server does what it was told. -/
theorem heeds_of_kind (heard : Operation) : t.heeds heard = heard := by
  unfold heeds
  rw [h]
  rfl

/-- Without spite the server turns to the instruction as what is in force left it. -/
theorem primed_of_kind (s : Sandwich) :
    t.primed s = Order.reapply t.order.standing (s, t.mind.personality.willing) := by
  unfold primed
  rw [h]
  rfl

end

/-- Who has no spite is not spiteful. -/
theorem not_spiteful {t : Table ℝ} (h : t.mind.personality.spite = 0)
    (hc : t.mind.chance.Proper) : t.spiteful = false := by
  unfold spiteful
  rw [h, zero_mul]
  exact decide_eq_false (not_lt.mpr hc.draw_nonneg)

/-- **A turn accounts for what it does**, to a machine that has refused nothing yet. -/
theorem accounts (t : Table R) (heard : Operation) (s : Sandwich) :
    Accounts (s, t.mind.personality.willing) (t.incidents heard s) (t.edited heard s) := by
  have hstanding := Order.accounts_reapply t.order.standing (s, t.mind.personality.willing)
  have hprimed : Accounts (Order.reapply t.order.standing (s, t.mind.personality.willing)) []
      (t.primed s) := by
    unfold primed
    split <;> exact .nothing rfl rfl rfl rfl
  have h := (hstanding.trans hprimed).trans ((t.heeds heard).accounts (t.primed s))
  rw [List.append_nil] at h
  exact h

/-- **The edits of a turn** change the pantry, the senses, what was refused and spite. What has to do
with none of them stays as it was. -/
theorem edited_congr {α : Type} (f : Personality R → α) (hemptied : ∀ p, f p.emptied = f p)
    (hspite : ∀ (p : Personality R) (x : R), f { p with spite := x } = f p) (t : Table R)
    (heard : Operation) (s : Sandwich) : f (t.edited heard s).2 = f t.mind.personality := by
  have happly : f (t.edited heard s).2 = f (t.primed s).2 := by
    unfold edited
    rw [← hemptied, (t.heeds heard).emptied_apply, hemptied]
  have hprimed : f (t.primed s).2 =
      f (Order.reapply t.order.standing (s, t.mind.personality.willing)).2 := by
    unfold primed
    split
    · exact hspite _ _
    · rfl
  rw [happly, hprimed, ← hemptied, Order.emptied_reapply]
  exact hemptied t.mind.personality

/-- The edits of a turn leave the counters of idle turns alone. -/
theorem idleTurns_edited (t : Table R) (heard : Operation) (s : Sandwich) :
    (t.edited heard s).2.idleTurns = t.mind.personality.idleTurns :=
  edited_congr (·.idleTurns) (fun _ => rfl) (fun _ _ => rfl) t heard s

end Table

namespace Order

open Act

variable {R : Type}

theorem perform_change (f : Personality R → Personality R) (t : Table R) :
    (Table.change f).perform t =
      (.ok ⟨⟩, { t with mind := { t.mind with personality := f t.mind.personality } }) := rfl

theorem perform_edit (f : Sandwich × Personality R → Sandwich × Personality R) (s : Sandwich)
    (t : Table R) : (edit f s).perform t = (.ok (f (s, t.mind.personality)).1,
      { t with mind := { t.mind with personality := (f (s, t.mind.personality)).2 } }) := rfl

variable [Scalar R]

/-- Spite is settled by one draw. -/
theorem perform_spited (x : Operation) (t : Table R) :
    (spited x).perform t = (.ok (t.heeds x), { t with mind :=
      ⟨if t.spiteful then { t.mind.personality with spite := 0.0 } else t.mind.personality,
        t.mind.chance.draw.2⟩ }) := by
  have hroll : (Table.lucky (roll (t.mind.personality.spite * t.mind.personality.stress))).perform t
      = (.ok t.spiteful, { t with mind := { t.mind with chance := t.mind.chance.draw.2 } }) := rfl
  unfold spited
  rw [perform_bind, perform_get]
  simp only
  rw [perform_bind, hroll]
  unfold Table.heeds
  cases t.spiteful <;> rfl

theorem perform_fade (used : List Skill) (t : Table R) :
    (Table.minded (Mind.fade used)).perform t = ((t.mind.personality.fade used).1,
      { t with mind := { t.mind with personality := (t.mind.personality.fade used).2 } }) := rfl

/-- **A turn of the server**: the edits, then growing and fading. Where fading fails, so does the
turn, and the order stays as it was. -/
theorem perform_serve (heard : Operation) (skills : Language R) (lex : List LexedWord)
    (s : Sandwich) (t : Table R) : (serve heard skills lex s).perform t =
      match Personality.fade skills.used ((t.edited heard s).2.upgrade skills) with
      | (.ok (), q) => (.ok ((t.edited heard s).1, (t.heeds heard).respond { q with lastLex := lex }),
          ⟨((t.order.countermand (t.heeds heard)).keep (t.heeds heard)).archive (t.heeds heard)
            (t.edited heard s).1, { q with lastLex := lex }, t.mind.chance.draw.2⟩)
      | (.error e, q) => (.error e, ⟨t.order, q, t.mind.chance.draw.2⟩) := by
  have hstanding := Order.emptied_reapply t.order.standing (s, t.mind.personality.willing)
  -- what is in force changes neither spite nor stress
  have hspite : (reapply t.order.standing (s, t.mind.personality.willing)).2.spite =
      t.mind.personality.spite := (congrArg Personality.spite hstanding :)
  have hstress : (reapply t.order.standing (s, t.mind.personality.willing)).2.stress =
      t.mind.personality.stress := (congrArg Personality.stress hstanding :)
  have hspiteful : (⟨t.order, (reapply t.order.standing (s, t.mind.personality.willing)).2,
      t.mind.chance⟩ : Table R).spiteful = t.spiteful := by
    unfold Table.spiteful
    rw [hspite, hstress]
  have hheeds : (⟨t.order, (reapply t.order.standing (s, t.mind.personality.willing)).2,
      t.mind.chance⟩ : Table R).heeds heard = t.heeds heard := by
    unfold Table.heeds
    rw [hspiteful]
  unfold serve
  rw [perform_bind, perform_change]
  change Act.perform _ (⟨t.order, t.mind.personality.willing, t.mind.chance⟩ : Table R) = _
  rw [perform_bind, perform_get]
  change Act.perform (edit (reapply t.order.standing) s >>= _) _ = _
  rw [perform_bind, perform_edit]
  simp only
  rw [perform_bind, perform_spited, hheeds, hspiteful]
  simp only
  rw [perform_bind, perform_edit]
  simp only
  rw [perform_bind, perform_change]
  change Act.perform (Table.minded (Mind.fade skills.used) >>= _)
    (⟨t.order, (t.edited heard s).2.upgrade skills, t.mind.chance.draw.2⟩ : Table R) = _
  rw [perform_bind, perform_fade]
  simp only
  generalize Personality.fade skills.used ((t.edited heard s).2.upgrade skills) = r
  obtain ⟨r, q⟩ := r
  cases r <;> rfl

section

variable {heard : Operation} {skills : Language R} {lex : List LexedWord} {s : Sandwich}
  {t t' : Table R}

/-- However a turn ends, the machine is left as it was edited, but for what it practised; and it keeps
the reading if the turn ends well. -/
theorem serve_cases {res : Except Fault (Sandwich × Option Operation)}
    (h : (serve heard skills lex s).perform t = (res, t')) : ∃ l r,
      (res = .ok ((t.edited heard s).1, (t.heeds heard).respond t'.mind.personality) ∧
        t'.mind.personality = { (t.edited heard s).2.practised l r with lastLex := lex }) ∨
      ((∃ e, res = .error e) ∧ t'.mind.personality = (t.edited heard s).2.practised l r) := by
  obtain ⟨l, r, hupgrade, -⟩ := (t.edited heard s).2.upgrade_spec skills
  obtain ⟨l', r', -, hfade⟩ :=
    Personality.fade_spec skills.used ((t.edited heard s).2.upgrade skills)
  refine ⟨l', r', ?_⟩
  rw [perform_serve] at h
  rcases hfade with ⟨-, hfade⟩ | ⟨k, -, -, hfade⟩
  · rw [hfade, hupgrade] at h
    cases h
    exact Or.inl ⟨rfl, rfl⟩
  · rw [hfade, hupgrade] at h
    cases h
    exact Or.inr ⟨⟨_, rfl⟩, rfl⟩

/-- **A turn that ends well** gives the sandwich as edited, and the answer of a machine that has
only practised since. -/
theorem serve_ok {s' : Sandwich} {answer : Option Operation}
    (h : (serve heard skills lex s).perform t = (.ok (s', answer), t')) :
    s' = (t.edited heard s).1 ∧ answer = (t.heeds heard).respond t'.mind.personality ∧
      ∃ l r, t'.mind.personality = { (t.edited heard s).2.practised l r with lastLex := lex } := by
  obtain ⟨l, r, ⟨hres, hp⟩ | ⟨⟨e, he⟩, -⟩⟩ := serve_cases h
  · cases hres
    exact ⟨rfl, rfl, l, r, hp⟩
  · cases he

end

end Order

end DeliTalk
