import DeliTalk.Proofs.Reversal
import DeliTalk.Proofs.Standing

/-!
# What an operation touches

An operation comes down to single steps, and each of them edits one thing: additions and removals
what is on the sandwich, confirmations the list of what is confirmed, the last word whether it is
finished. On the machine an addition uses the pantry or notes a refusal, and a yes makes senses of
the last reading weigh more. Whatever else there is stays as it was, however the steps are put
together.

* `Reweighed`: a machine's senses after a yes.
* `newlyEnsured`: what some confirmations add to what is confirmed.
* `Sandwich.Touched`, `Personality.Touched`: what some steps change, and how.
* `Operation.touched_apply`: an operation changes nothing else.
* `Alike`: what additions and removals depend on.
* `Operation.ingredients_apply`: what is on the sandwich is told by additions and removals alone.
* `Operation.apply_confined`: all of it at once.
-/

namespace DeliTalk

/-! ## 1. Senses with other weights -/

/-- Two lists matched place by place are matched through a third one. -/
theorem forall₂_trans {α : Type} {r : α → α → Prop} (hr : ∀ a b c, r a b → r b c → r a c)
    {l l' l'' : List α} (h : List.Forall₂ r l l') (h' : List.Forall₂ r l' l'') :
    List.Forall₂ r l l'' := by
  induction h generalizing l'' with
  | nil => exact h'
  | cons hab _ ih =>
    cases h' with
    | cons hbc hrest => exact .cons (hr _ _ _ hab hbc) (ih hrest)

section

variable {R : Type} {reading : List LexedWord}

/-- A sense of a word with another weight at most, and with the same one if the word was not read
with it. -/
def Meaning.Reweighs (reading : List LexedWord) (word : String) (m m' : Meaning R) : Prop :=
  m'.entry = m.entry ∧ (⟨word, some m.entry⟩ ∉ reading → m' = m)

/-- The same words with the same senses in the same order, of which only those a word of a reading
was read with have another weight. -/
def Reweighed (reading : List LexedWord) (c c' : Register (List (Meaning R))) : Prop :=
  List.Forall₂ (fun a b => b.1 = a.1 ∧ List.Forall₂ (Meaning.Reweighs reading a.1) a.2 b.2) c c'

theorem Meaning.Reweighs.refl {word : String} (m : Meaning R) : m.Reweighs reading word m :=
  ⟨rfl, fun _ => rfl⟩

theorem Meaning.Reweighs.trans {word : String} {m m' m'' : Meaning R}
    (h : m.Reweighs reading word m') (h' : m'.Reweighs reading word m'') :
    m.Reweighs reading word m'' := by
  refine ⟨h'.1.trans h.1, fun hunread => ?_⟩
  have hsame := h.2 hunread
  subst hsame
  exact h'.2 hunread

namespace Reweighed

variable {c c' c'' : Register (List (Meaning R))}

theorem refl (reading : List LexedWord) (c : Register (List (Meaning R))) :
    Reweighed reading c c :=
  List.forall₂_same.mpr fun _ _ => ⟨rfl, List.forall₂_same.mpr fun m _ => .refl m⟩

theorem trans (h : Reweighed reading c c') (h' : Reweighed reading c' c'') :
    Reweighed reading c c'' := by
  refine forall₂_trans (fun a b d hab hbd => ⟨hbd.1.trans hab.1, ?_⟩) h h'
  have hsenses := hbd.2
  rw [hab.1] at hsenses
  exact forall₂_trans (fun _ _ _ => .trans) hab.2 hsenses

/-- One word's senses with other weights. -/
theorem put {word : String} {ms ms' : List (Meaning R)}
    (hms : List.Forall₂ (Meaning.Reweighs reading word) ms ms') :
    ∀ {c : Register (List (Meaning R))}, Register.find? word c = some ms →
      Reweighed reading c (Register.put word ms' c)
  | (key, old) :: rest, hfind => by
    unfold Register.find? at hfind
    unfold Register.put
    split at hfind
    · rename_i hkey
      cases hfind
      rw [if_pos hkey]
      subst hkey
      exact .cons ⟨rfl, hms⟩ (refl reading rest)
    · rename_i hkey
      rw [if_neg hkey]
      exact .cons ⟨rfl, List.forall₂_same.mpr fun m _ => .refl m⟩ (put hms hfind)

end Reweighed

variable [Scalar R]

namespace Personality

/-- Senses are strengthened in their places. -/
theorem reweighs_strengthen (rate : R) {word : String} {entry : Entry}
    (hread : ⟨word, some entry⟩ ∈ reading) : ∀ ms : List (Meaning R),
      List.Forall₂ (Meaning.Reweighs reading word) ms (strengthen rate entry ms).1
  | [] => .nil
  | m :: rest => by
    have ih := reweighs_strengthen rate hread rest
    unfold strengthen
    simp only
    split
    · rename_i heq
      subst heq
      exact .cons ⟨rfl, fun hunread => absurd hread hunread⟩ ih
    · exact .cons (.refl m) ih

/-- One word of a reading. -/
theorem reweighed_reinforceWord (rate : R) (p : Personality R) {w : LexedWord} (hw : w ∈ reading) :
    Reweighed reading p.cloud (reinforceWord rate p w).1.cloud := by
  obtain ⟨word, entry⟩ := w
  unfold reinforceWord
  split
  · rename_i e senses hentry hsenses
    cases hentry
    exact .put (reweighs_strengthen rate hw senses) hsenses
  · exact .refl reading p.cloud

/-- **A yes** gives other weights to the senses the last words were read with, and no others. -/
theorem reweighed_reinforce (rate : R) (p : Personality R) (reading : List LexedWord) :
    Reweighed reading p.cloud (p.reinforce rate reading).1.cloud := by
  have key : ∀ (ws : List LexedWord) (q : Personality R), (∀ w ∈ ws, w ∈ reading) →
      Reweighed reading q.cloud (q.reinforce rate ws).1.cloud := by
    intro ws
    induction ws with
    | nil => exact fun q _ => .refl reading q.cloud
    | cons w rest ih =>
      intro q hws
      rw [reinforce_cons]
      exact (reweighed_reinforceWord rate q (hws w List.mem_cons_self)).trans
        (ih _ fun v hv => hws v (List.mem_cons_of_mem w hv))
  exact key reading p fun _ => id

end Personality

end

/-! ## 2. What is confirmed -/

/-- Childless copies of some ingredients, of each name the first one, without those whose names are
known. -/
def newlyEnsured (known is : List Ingredient) : List Ingredient :=
  ((is.filter fun i => !known.any (·.same i)).eraseDupsBy Ingredient.same).map Ingredient.leaf

/-- The ingredient a single operation confirms. -/
def Operation.ensured? : Operation → Option Ingredient
  | ensure i => some i
  | _ => none

section

variable {known : List Ingredient}

theorem newlyEnsured_known {i : Ingredient} (h : known.any (·.same i) = true)
    (rest : List Ingredient) : newlyEnsured known (i :: rest) = newlyEnsured known rest := by
  unfold newlyEnsured
  rw [List.filter_cons_of_neg (by simp [h])]

theorem newlyEnsured_unknown {i : Ingredient} (h : known.any (·.same i) = false)
    (rest : List Ingredient) :
    newlyEnsured known (i :: rest) = i.leaf :: newlyEnsured (known ++ [i.leaf]) rest := by
  unfold newlyEnsured
  rw [List.filter_cons_of_pos (by simp [h]), List.eraseDupsBy_cons, List.map_cons,
    List.filter_filter]
  have hboth : (fun j : Ingredient => !(known ++ [i.leaf]).any (·.same j)) = fun j =>
      decide (j.same i = false) && !known.any (·.same j) := by
    funext j
    have hsame : (!i.leaf.same j) = decide (j.same i = false) := by
      show (!(i.name == j.name)) = decide ((j.name == i.name) = false)
      rw [Bool.beq_comm]
      cases j.name == i.name <;> rfl
    rw [List.any_append, Bool.not_or, Bool.and_comm, List.any_cons, List.any_nil, Bool.or_false,
      hsame]
  rw [hboth]

/-- Some confirmations after others. -/
theorem newlyEnsured_append (is js : List Ingredient) : ∀ known : List Ingredient,
    newlyEnsured known (is ++ js) =
      newlyEnsured known is ++ newlyEnsured (known ++ newlyEnsured known is) js := by
  induction is with
  | nil =>
    intro known
    show newlyEnsured known js = [] ++ newlyEnsured (known ++ []) js
    rw [List.nil_append, List.append_nil]
  | cons i rest ih =>
    intro known
    rw [List.cons_append]
    by_cases h : known.any (·.same i) = true
    · rw [newlyEnsured_known h, newlyEnsured_known h]
      exact ih known
    · have hnew := Bool.eq_false_iff.mpr h
      rw [newlyEnsured_unknown hnew, newlyEnsured_unknown hnew, ih (known ++ [i.leaf]),
        List.append_assoc]
      rfl

/-- What was confirmed is known. -/
theorem any_same_newlyEnsured {i : Ingredient} : ∀ {is known : List Ingredient},
    known.any (·.same i) = true ∨ i ∈ is → (known ++ newlyEnsured known is).any (·.same i) = true
  | [], known, h => by
    rw [List.any_append, h.resolve_right List.not_mem_nil]
    rfl
  | j :: rest, known, h => by
    by_cases hj : known.any (·.same j) = true
    · rw [newlyEnsured_known hj]
      refine any_same_newlyEnsured (h.elim Or.inl fun hi => ?_)
      rcases List.mem_cons.mp hi with rfl | hi
      · exact Or.inl hj
      · exact Or.inr hi
    · rw [newlyEnsured_unknown (Bool.eq_false_iff.mpr hj), List.append_cons]
      refine any_same_newlyEnsured ?_
      rw [List.any_append, Bool.or_eq_true]
      rcases h with h | hi
      · exact Or.inl (Or.inl h)
      · rcases List.mem_cons.mp hi with rfl | hi
        · refine Or.inl (Or.inr ?_)
          exact List.any_eq_true.mpr ⟨i.leaf, List.mem_singleton_self _, beq_self_eq_true _⟩
        · exact Or.inr hi

/-- **Confirming the same again** adds nothing. -/
theorem newlyEnsured_again (known is : List Ingredient) :
    newlyEnsured (known ++ newlyEnsured known is) is = [] := by
  have hnone : (is.filter fun i => !(known ++ newlyEnsured known is).any (·.same i)) = [] := by
    refine List.filter_eq_nil_iff.mpr fun i hi => ?_
    rw [any_same_newlyEnsured (Or.inr hi)]
    exact Bool.false_ne_true
  unfold newlyEnsured at hnone ⊢
  rw [hnone]
  rfl

/-- **Names that are distinct stay distinct.** -/
theorem nodup_newlyEnsured : ∀ {is known : List Ingredient}, (known.map (·.name)).Nodup →
    ((known ++ newlyEnsured known is).map (·.name)).Nodup
  | [], known, h => by
    show ((known ++ ([] : List Ingredient)).map (·.name)).Nodup
    rwa [List.append_nil]
  | i :: rest, known, h => by
    by_cases hi : known.any (·.same i) = true
    · rw [newlyEnsured_known hi]
      exact nodup_newlyEnsured h
    · rw [newlyEnsured_unknown (Bool.eq_false_iff.mpr hi), List.append_cons]
      refine nodup_newlyEnsured ?_
      rw [List.map_append]
      refine h.append (List.nodup_singleton _) ?_
      intro name hname hsingle
      obtain ⟨j, hj, hjname⟩ := List.mem_map.mp hname
      rw [List.map_singleton, List.mem_singleton, Ingredient.name_leaf] at hsingle
      exact hi (List.any_eq_true.mpr ⟨j, hj, beq_iff_eq.mpr (hjname.trans hsingle)⟩)

end

/-! ## 3. What steps touch -/

/-- What some single steps change on a sandwich: it is finished if one of them is the last word,
what they confirm is confirmed, and what is on it was on it or is a childless copy of something they
add. -/
structure Sandwich.Touched (l : List Operation) (s s' : Sandwich) : Prop where
  background : s'.background = s.background
  complete : s'.complete = true ↔ s.complete = true ∨ .finish ∈ l
  ensured : s'.ensured = s.ensured ++ newlyEnsured s.ensured (l.filterMap Operation.ensured?)
  origin (j : Ingredient) : j ∈ s'.ingredients →
    j ∈ s.ingredients ∨ ∃ i r, .add i r ∈ l ∧ j = i.leaf

/-- What some single steps change of a machine: the pantry and what was refused, if one of them adds
something, and the weights of the senses the last words were read with, if one of them is a yes. -/
structure Personality.Touched {R : Type} (l : List Operation) (p p' : Personality R) : Prop where
  others : p' = { p with inventory := p'.inventory, refused := p'.refused, cloud := p'.cloud }
  pantry : (∀ i r, .add i r ∉ l) → p'.inventory = p.inventory ∧ p'.refused = p.refused
  senses : Reweighed p.lastLex p.cloud p'.cloud
  unaffirmed : .affirm ∉ l → p'.cloud = p.cloud

namespace Sandwich.Touched

variable {l l' : List Operation} {s s' s'' : Sandwich}

theorem nothing (s : Sandwich) : Touched [] s s :=
  ⟨rfl, by simp, (List.append_nil _).symm, fun _ => Or.inl⟩

theorem trans (h : Touched l s s') (h' : Touched l' s' s'') : Touched (l ++ l') s s'' := by
  refine ⟨h'.background.trans h.background, ?_, ?_, fun j hj => ?_⟩
  · rw [h'.complete, h.complete, List.mem_append, or_assoc]
  · rw [h'.ensured, h.ensured, List.filterMap_append, newlyEnsured_append, List.append_assoc]
  · rcases h'.origin j hj with hj | ⟨i, r, hadd, hleaf⟩
    · refine (h.origin j hj).imp id ?_
      rintro ⟨i, r, hadd, hleaf⟩
      exact ⟨i, r, List.mem_append_left l' hadd, hleaf⟩
    · exact Or.inr ⟨i, r, List.mem_append_right l hadd, hleaf⟩

/-- A step that is neither a confirmation nor the last word, and edits the ingredients at most. -/
theorem of_ingredients {y : Operation} {cs : List Ingredient} (hfinish : .finish ≠ y)
    (hensured : y.ensured? = none)
    (hcs : ∀ j ∈ cs, j ∈ s.ingredients ∨ ∃ i r, y = .add i r ∧ j = i.leaf) :
    Touched [y] s { s with ingredients := cs } := by
  refine ⟨rfl, by simp [hfinish], ?_, fun j hj => (hcs j hj).imp id ?_⟩
  · rw [List.filterMap_cons_none hensured]
    exact (List.append_nil _).symm
  · rintro ⟨i, r, rfl, hleaf⟩
    exact ⟨i, r, List.mem_singleton_self _, hleaf⟩

end Sandwich.Touched

namespace Personality.Touched

variable {R : Type} {l l' : List Operation} {p p' p'' : Personality R}

theorem refl (l : List Operation) (p : Personality R) : Touched l p p :=
  ⟨rfl, fun _ => ⟨rfl, rfl⟩, .refl p.lastLex p.cloud, fun _ => rfl⟩

theorem lastLex (h : Touched l p p') : p'.lastLex = p.lastLex := by
  rw [h.others]

theorem trans (h : Touched l p p') (h' : Touched l' p' p'') : Touched (l ++ l') p p'' := by
  refine ⟨?_, fun hadd => ?_, h.senses.trans (h.lastLex ▸ h'.senses), fun haffirm => ?_⟩
  · rw [h'.others, h.others]
  · obtain ⟨hinventory, hrefused⟩ :=
      h.pantry fun i r hmem => hadd i r (List.mem_append_left l' hmem)
    obtain ⟨hinventory', hrefused'⟩ :=
      h'.pantry fun i r hmem => hadd i r (List.mem_append_right l hmem)
    exact ⟨hinventory'.trans hinventory, hrefused'.trans hrefused⟩
  · rw [List.mem_append, not_or] at haffirm
    exact (h'.unaffirmed haffirm.2).trans (h.unaffirmed haffirm.1)

end Personality.Touched

namespace Operation

variable {R : Type} [Scalar R]

/-- **One step** touches what it declares. -/
theorem touched_single {y : Operation} (hy : y.isSingle = true) (s : Sandwich) (p : Personality R) :
    s.Touched [y] (y.apply (s, p)).1 ∧ p.Touched [y] (y.apply (s, p)).2 := by
  cases y with
  | add i r =>
    have hsame : s.Touched [.add i r] s := .of_ingredients nofun rfl fun j => Or.inl
    have hmachine : ∀ inventory refused, p.Touched [.add i r]
        { p with inventory := inventory, refused := refused } := fun inventory refused =>
      ⟨rfl, fun h => absurd (List.mem_singleton_self _) (h i r), .refl _ _, fun _ => rfl⟩
    show s.Touched [.add i r] (applyAdd i r s p).1 ∧ p.Touched [.add i r] (applyAdd i r s p).2
    rcases applyAdd_cases i r s p with h | ⟨place, inventory, h⟩ | ⟨refused, h⟩
    · rw [h]
      exact ⟨hsame, .refl _ p⟩
    · rw [h]
      refine ⟨.of_ingredients nofun rfl fun j hj => ?_, hmachine inventory p.refused⟩
      rcases List.eq_or_mem_of_mem_insertIdx hj with rfl | hj
      · exact Or.inr ⟨i, r, rfl, rfl⟩
      · exact Or.inl hj
    · rw [h]
      exact ⟨hsame, hmachine p.inventory refused⟩
  | remove i =>
    exact ⟨.of_ingredients nofun rfl fun j hj => Or.inl (List.mem_of_mem_eraseP hj), .refl _ p⟩
  | removeAll i =>
    exact ⟨.of_ingredients nofun rfl fun j hj => Or.inl (List.mem_of_mem_filter hj), .refl _ p⟩
  | ensure i =>
    refine ⟨?_, .refl _ p⟩
    show s.Touched [.ensure i] (withEnsured i s)
    unfold withEnsured
    split
    · rename_i hknown
      refine ⟨rfl, by simp, ?_, fun _ => Or.inl⟩
      show s.ensured = s.ensured ++ newlyEnsured s.ensured [i]
      rw [newlyEnsured_known hknown]
      exact (List.append_nil _).symm
    · rename_i hunknown
      refine ⟨rfl, by simp, ?_, fun _ => Or.inl⟩
      show s.ensured ++ [i.leaf] = s.ensured ++ newlyEnsured s.ensured [i]
      rw [newlyEnsured_unknown (Bool.eq_false_iff.mpr hunknown)]
      rfl
  | affirm =>
    obtain ⟨cloud, hcloud⟩ := exists_reinforce (Personality.confirmationRate : R) p.lastLex p
    have hsenses := p.reweighed_reinforce Personality.confirmationRate p.lastLex
    refine ⟨.of_ingredients nofun rfl fun j => Or.inl, ?_⟩
    show p.Touched [.affirm] (p.reinforce Personality.confirmationRate p.lastLex).1
    rw [hcloud] at hsenses ⊢
    exact ⟨rfl, fun _ => ⟨rfl, rfl⟩, hsenses, fun h => absurd (List.mem_singleton_self _) h⟩
  | finish => exact ⟨⟨rfl, by simp [apply], (List.append_nil _).symm, fun _ => Or.inl⟩, .refl _ p⟩
  | negate => exact ⟨.of_ingredients nofun rfl fun j => Or.inl, .refl _ p⟩
  | checkFor i => exact ⟨.of_ingredients nofun rfl fun j => Or.inl, .refl _ p⟩
  | repeated | compound | persist => cases hy

/-- The steps of an operation are not made of others. -/
theorem isSingle_of_mem_steps : ∀ {x z : Operation}, z ∈ x.steps → z.isSingle = true := by
  intro x
  induction x with
  | repeated n x ih =>
    intro z hz
    obtain ⟨l, hl, hz⟩ := List.mem_flatten.mp hz
    rw [(List.mem_replicate.mp hl).2] at hz
    exact ih hz
  | compound x y ihx ihy =>
    intro z hz
    exact (List.mem_append.mp hz).elim ihx ihy
  | persist x ih => exact ih
  | _ =>
    intro z hz
    cases List.mem_singleton.mp hz
    rfl

/-- **Some steps** touch what they declare. -/
theorem touched_reapply : ∀ {l : List Operation}, (∀ y ∈ l, y.isSingle = true) →
    ∀ (s : Sandwich) (p : Personality R), s.Touched l (Order.reapply l (s, p)).1 ∧
      p.Touched l (Order.reapply l (s, p)).2
  | [], _, s, p => ⟨.nothing s, .refl [] p⟩
  | y :: rest, h, s, p => by
    obtain ⟨hs, hp⟩ := touched_single (h y List.mem_cons_self) s p
    obtain ⟨hs', hp'⟩ := touched_reapply (fun z hz => h z (List.mem_cons_of_mem y hz))
      (y.apply (s, p)).1 (y.apply (s, p)).2
    exact ⟨hs.trans hs', hp.trans hp'⟩

/-- **An operation** touches what its steps declare. -/
theorem touched_apply (x : Operation) (s : Sandwich) (p : Personality R) :
    s.Touched x.steps (x.apply (s, p)).1 ∧ p.Touched x.steps (x.apply (s, p)).2 := by
  rw [apply_steps]
  exact touched_reapply (fun _ => isSingle_of_mem_steps) s p

end Operation

/-! ## 4. What tells what is on the sandwich -/

/-- The same things on two sandwiches, and the same things in the pantries of two machines. -/
structure Alike {R : Type} (sp sq : Sandwich × Personality R) : Prop where
  ingredients : sp.1.ingredients = sq.1.ingredients
  inventory : sp.2.inventory = sq.2.inventory
  limited : sp.2.unlimitedStock = sq.2.unlimitedStock

namespace Alike

variable {R : Type} {sp sq : Sandwich × Personality R}

theorem add (h : Alike sp sq) (i : Ingredient) (r : Relative) :
    Alike (Operation.applyAdd i r sp.1 sp.2) (Operation.applyAdd i r sq.1 sq.2) := by
  have hunits : sp.2.units i.name = sq.2.units i.name := by
    unfold Personality.units
    rw [h.inventory]
  unfold Operation.applyAdd Personality.take
  rw [h.ingredients, h.limited, hunits]
  cases Operation.insertionPoint r sq.1.ingredients with
  | none => exact h
  | some place =>
    by_cases hlimited : sq.2.unlimitedStock = true
    · simp only [hlimited, if_true]
      exact ⟨rfl, h.inventory, h.limited⟩
    · by_cases hnone : sq.2.units i.name ≤ 0
      · simp only [hlimited, hnone, if_true, Bool.false_eq_true, if_false]
        rw [sp.2.refuse_eq, sq.2.refuse_eq]
        exact ⟨h.ingredients, h.inventory, h.limited⟩
      · simp only [hlimited, hnone, Bool.false_eq_true, if_false]
        exact ⟨rfl, by rw [h.inventory], rfl⟩

variable [Scalar R]

/-- Additions and removals do the same where the same is there. -/
theorem edit (h : Alike sp sq) {y : Operation} (hy : y.isSingle = true)
    (hchanges : y.changesSandwich = true) : Alike (y.apply sp) (y.apply sq) := by
  cases y with
  | add i r => exact h.add i r
  | remove i => exact ⟨congrArg (·.eraseP (·.same i)) h.ingredients, h.inventory, h.limited⟩
  | removeAll i =>
    exact ⟨congrArg (·.filter fun x => !x.same i) h.ingredients, h.inventory, h.limited⟩
  | repeated | compound | persist => cases hy
  | _ => cases hchanges

/-- Other steps do nothing to it. -/
theorem skip (h : Alike sp sq) {y : Operation} (hy : y.isSingle = true)
    (hchanges : y.changesSandwich = false) : Alike (y.apply sp) sq := by
  cases y with
  | ensure i =>
    refine ⟨?_, h.inventory, h.limited⟩
    show (Operation.withEnsured i sp.1).ingredients = _
    unfold Operation.withEnsured
    split
    · exact h.ingredients
    · exact h.ingredients
  | affirm =>
    obtain ⟨cloud, hcloud⟩ :=
      Operation.exists_reinforce (Personality.confirmationRate : R) sp.2.lastLex sp.2
    show Alike (sp.1, (sp.2.reinforce Personality.confirmationRate sp.2.lastLex).1) sq
    rw [hcloud]
    exact ⟨h.ingredients, h.inventory, h.limited⟩
  | negate => exact h
  | checkFor i => exact h
  | finish => exact ⟨h.ingredients, h.inventory, h.limited⟩
  | repeated | compound | persist => cases hy
  | _ => cases hchanges

/-- **Steps that are neither additions nor removals may be left out.** -/
theorem reapply : ∀ {l : List Operation}, (∀ y ∈ l, y.isSingle = true) →
    ∀ {sp sq : Sandwich × Personality R}, Alike sp sq →
      Alike (Order.reapply l sp) (Order.reapply (l.filter (·.changesSandwich)) sq)
  | [], _, _, _, h => h
  | y :: rest, hsingle, sp, sq, h => by
    have hy := hsingle y List.mem_cons_self
    have hrest := fun z hz => hsingle z (List.mem_cons_of_mem y hz)
    by_cases hchanges : y.changesSandwich = true
    · rw [List.filter_cons_of_pos hchanges]
      exact reapply hrest (h.edit hy hchanges)
    · rw [List.filter_cons_of_neg hchanges]
      exact reapply hrest (h.skip hy (Bool.eq_false_iff.mpr hchanges))

end Alike

namespace Operation

variable {R : Type} [Scalar R]

/-- **What is on the sandwich** is told by the additions and removals of an operation alone. -/
theorem ingredients_apply (x : Operation) (sp : Sandwich × Personality R) :
    (x.apply sp).1.ingredients =
      (Order.reapply (x.steps.filter (·.changesSandwich)) sp).1.ingredients := by
  rw [apply_steps]
  exact (Alike.reapply (fun _ => isSingle_of_mem_steps) ⟨rfl, rfl, rfl⟩).ingredients

/-! ## 5. All of it at once -/

/-- **An operation edits what it declares, and nothing else.** Its steps in the order they are done
tell what becomes of the sandwich and of the machine (`Sandwich.Touched`, `Personality.Touched`);
what is on the sandwich is told by the additions and removals among them; leaves stay leaves; what
is confirmed stays distinct by name, and doing the same again, on whatever machine, confirms nothing
more. -/
theorem apply_confined (x : Operation) (s : Sandwich) (p : Personality R)
    (hdistinct : (s.ensured.map (·.name)).Nodup) :
    s.Touched x.steps (x.apply (s, p)).1 ∧ p.Touched x.steps (x.apply (s, p)).2 ∧
    (x.apply (s, p)).1.ingredients =
      (Order.reapply (x.steps.filter (·.changesSandwich)) (s, p)).1.ingredients ∧
    ((∀ i ∈ s.ingredients, i.isLeaf = true) →
      ∀ i ∈ (x.apply (s, p)).1.ingredients, i.isLeaf = true) ∧
    ((x.apply (s, p)).1.ensured.map (·.name)).Nodup ∧
    ∀ q : Personality R,
      (x.apply ((x.apply (s, p)).1, q)).1.ensured = (x.apply (s, p)).1.ensured := by
  obtain ⟨hs, hp⟩ := touched_apply x s p
  refine ⟨hs, hp, ingredients_apply x (s, p), fun hleaves i hi => ?_, ?_, fun q => ?_⟩
  · rcases hs.origin i hi with hi | ⟨j, r, -, rfl⟩
    · exact hleaves i hi
    · exact j.isLeaf_leaf
  · rw [hs.ensured]
    exact nodup_newlyEnsured hdistinct
  · rw [(touched_apply x (x.apply (s, p)).1 q).1.ensured, hs.ensured, newlyEnsured_again,
      List.append_nil]

namespace House

/-- Two assurances of lettuce and one of tomato, two lettuces, a yes and the last word. -/
def lavish : Operation := .compound (.repeated 2 (.compound (.ensure lettuce) (.add lettuce .top)))
  (.compound (.ensure tomato) (.compound .affirm .finish))

/-- A tomato that is confirmed already. -/
def sureTomato : Sandwich := { oneTomato with ensured := [tomato] }

/-- Of all that is confirmed only the lettuce is new, and only once; it is finished, and doing the
same again confirms nothing more. -/
theorem confined_lavish :
    let s' := (lavish.apply (sureTomato, (Personality.dreamer : Personality ℝ))).1
    (sureTomato.ensured.map (·.name)).Nodup ∧ s'.ensured = [tomato, lettuce] ∧
      s'.complete = true ∧ s'.background = sureTomato.background ∧
      (lavish.apply (s', (Personality.dreamer : Personality ℝ))).1.ensured = [tomato, lettuce] := by
  intro s'
  have hdistinct : (sureTomato.ensured.map (·.name)).Nodup := by decide
  obtain ⟨hs, -, -, -, -, hagain⟩ :=
    apply_confined lavish sureTomato (Personality.dreamer : Personality ℝ) hdistinct
  have hensured : s'.ensured = [tomato, lettuce] := hs.ensured
  refine ⟨hdistinct, hensured, hs.complete.mpr (Or.inr ?_), hs.background, ?_⟩
  · simp [lavish, steps]
  · exact (hagain Personality.dreamer).trans hensured

end House

end Operation

end DeliTalk
