import DeliTalk.Proofs.Caution
import DeliTalk.Proofs.Incidents
import DeliTalk.Proofs.Luck
import DeliTalk.Proofs.Reckoning

/-!
# What a customer hears sticks

Over a whole session a customer takes turns and hears what the server says back, in any order. What
it forgoes on hearing that there is none of it leaves its wishes, and only the craving for a
favorite brings anything back; what it knows to be there it does not ask about; and it does not put
the same question twice in a row.

* `Order.forgone`, `Operation.confirmed`: what is forgone on hearing an operation, and what is known
  to be there.
* `Order.Craves`: wishes after a craving, if there was one.
* `Fairly`: an act of luck on a fair source.
* `Order.Turned`, `Order.ends_next_turned`: what comes of one turn.
* `Moment`, `Run`: what happens one after the other.
* `Order.heard_sticks`: what sticks over a run.
-/

namespace DeliTalk

open Act

/-! ## 1. Hearing -/

/-- The names an operation confirms, however it is put together. -/
def Operation.confirmed : Operation → List String
  | persist x => confirmed x
  | repeated _ x => confirmed x
  | compound x y => confirmed x ++ confirmed y
  | ensure i => [i.name]
  | _ => []

namespace Order

/-- The names forgone on hearing an operation, however it is put together: those it says are not
there, and that of the pending question where it says no. -/
def forgone (o : Order) : Operation → List String
  | .persist x => forgone o x
  | .repeated _ x => forgone o x
  | .compound x y => forgone o x ++ forgone (o.hear x) y
  | .remove i => [i.name]
  | .removeAll i => [i.name]
  | .negate => (o.pending.map (·.name)).toList
  | _ => []

/-- What is forgone is no longer desired, and nothing else happens to the ingredients desired. -/
theorem ingredients_hear (x : Operation) (o : Order) : (o.hear x).desired.ingredients =
    o.desired.ingredients.filter fun i => decide (i.name ∉ o.forgone x) := by
  have hall : ∀ cs : List Ingredient,
      cs = cs.filter fun i => decide (i.name ∉ ([] : List String)) := fun cs =>
    (List.filter_eq_self.mpr fun i _ => by simp).symm
  have hone : ∀ (cs : List Ingredient) (i : Ingredient), cs.filter (fun j => !j.same i) =
      cs.filter fun j => decide (j.name ∉ [i.name]) := fun cs i =>
    List.filter_congr fun j _ => Bool.eq_iff_iff.mpr (by simp [Ingredient.same])
  induction x generalizing o with
  | persist x ih => exact ih o
  | repeated n x ih => exact ih o
  | compound x y ihx ihy =>
    show ((o.hear x).hear y).desired.ingredients = _
    rw [ihy, ihx, List.filter_filter]
    simp [forgone, not_or, Bool.and_comm]
  | remove i => exact hone _ i
  | removeAll i => exact hone _ i
  | ensure i =>
    show (Operation.withEnsured i o.desired).ingredients = _
    unfold Operation.withEnsured
    split <;> exact hall _
  | negate =>
    unfold hear forgone
    cases o.pending with
    | none => exact hall _
    | some i => exact hone _ i
  | _ => exact hall _

/-- What was known to be there stays known. -/
theorem ensured_hear (x : Operation) (o : Order) :
    o.desired.ensured ⊆ (o.hear x).desired.ensured := by
  induction x generalizing o with
  | persist x ih => exact ih o
  | repeated n x ih => exact ih o
  | compound x y ihx ihy => exact List.Subset.trans (ihx o) (ihy (o.hear x))
  | ensure i =>
    show _ ⊆ (Operation.withEnsured i o.desired).ensured
    unfold Operation.withEnsured
    split
    · exact List.Subset.refl _
    · exact List.subset_append_left _ _
  | negate =>
    unfold hear
    split <;> exact List.Subset.refl _
  | _ => exact List.Subset.refl _

/-- Whether an ingredient of a name is known to be there. -/
def Knows (o : Order) (name : String) : Prop := ∃ j ∈ o.desired.ensured, j.name = name

/-- What is confirmed is known to be there. -/
theorem knows_hear (x : Operation) (o : Order) {name : String} (h : name ∈ x.confirmed) :
    (o.hear x).Knows name := by
  induction x generalizing o with
  | persist x ih => exact ih o h
  | repeated n x ih => exact ih o h
  | compound x y ihx ihy =>
    rcases List.mem_append.mp h with h | h
    · obtain ⟨j, hj, hname⟩ := ihx o h
      exact ⟨j, ensured_hear y (o.hear x) hj, hname⟩
    · exact ihy (o.hear x) h
  | ensure i =>
    obtain rfl := List.mem_singleton.mp h
    show ∃ j ∈ (Operation.withEnsured i o.desired).ensured, j.name = i.name
    unfold Operation.withEnsured
    split
    · rename_i hensured
      obtain ⟨j, hj, hsame⟩ := List.any_eq_true.mp hensured
      exact ⟨j, hj, beq_iff_eq.mp hsame⟩
    · exact ⟨i.leaf, List.mem_append_right _ (List.mem_singleton_self _), rfl⟩
  | _ => cases h

end Order

/-! ## 2. Craving -/

section

variable {R : Type}

/-- Wishes after a craving: nothing was craved, or a favorite that is a leaf is among them now.
Where there are two wishes or more, it is neither before the first nor after the last one. -/
inductive Order.Craves (favorites : List (Preference R)) (d : Sandwich) : Sandwich → Prop where
  | nothing : Craves favorites d d
  | favorite {f : Preference R} {place : Nat} (mem : f ∈ favorites)
      (leaf : f.ingredient.isLeaf = true) (within : place ≤ d.ingredients.length)
      (inner : 2 ≤ d.ingredients.length → 0 < place ∧ place < d.ingredients.length) :
      Craves favorites d { d with ingredients := d.ingredients.insertIdx place f.ingredient.leaf }

namespace Order.Craves

variable {favorites : List (Preference R)} {d d' : Sandwich}

theorem ensured (h : Craves favorites d d') : d'.ensured = d.ensured := by
  cases h <;> rfl

/-- What is not desired and no favorite is not craved. -/
theorem not_mem_names (h : Craves favorites d d') {name : String}
    (hfavorites : ∀ f ∈ favorites, f.ingredient.name ≠ name) (hname : name ∉ d.names) :
    name ∉ d'.names := by
  cases h with
  | nothing => exact hname
  | @favorite f place mem leaf within inner =>
    intro hmem
    obtain ⟨i, hi, hin⟩ := List.mem_map.mp hmem
    rcases List.eq_or_mem_of_mem_insertIdx hi with rfl | hi
    · exact hfavorites f mem hin
    · exact hname (List.mem_map.mpr ⟨i, hi, hin⟩)

/-- The first and the last one of at least two wishes stay where they are. -/
theorem ends (h : Craves favorites d d') (hd : 2 ≤ d.ingredients.length) :
    d'.ingredients.head? = d.ingredients.head? ∧
      d'.ingredients.getLast? = d.ingredients.getLast? := by
  cases h with
  | nothing => exact ⟨rfl, rfl⟩
  | favorite mem leaf within inner =>
    obtain ⟨hpos, hlt⟩ := inner hd
    constructor
    · rw [List.head?_eq_getElem?, List.head?_eq_getElem?]
      exact List.getElem?_insertIdx_of_lt hpos
    · rw [List.getLast?_eq_getElem?, List.getLast?_eq_getElem?,
        List.length_insertIdx_of_le_length within, List.getElem?_insertIdx_of_gt (by omega)]
      rfl

/-- What a craving does to the wishes. -/
theorem spec (h : Craves favorites d d') : d' = d ∨ ∃ f ∈ favorites, f.ingredient.isLeaf = true ∧
    (∃ place ≤ d.ingredients.length,
      d' = { d with ingredients := d.ingredients.insertIdx place f.ingredient.leaf }) ∧
    (2 ≤ d.ingredients.length → d'.ingredients.head? = d.ingredients.head? ∧
      d'.ingredients.getLast? = d.ingredients.getLast?) := by
  have hends := h.ends
  cases h with
  | nothing => exact Or.inl rfl
  | @favorite f place mem leaf within inner =>
    exact Or.inr ⟨f, mem, leaf, ⟨place, within, rfl⟩, hends⟩

end Order.Craves

end

/-! ## 3. Luck on a fair source -/

section Fairly

variable {R : Type} [Scalar R] {α β : Type}

/-- An act of luck that leaves a fair source fair; if it comes to a value, then to one of a kind. -/
def Fairly (x : Luck R α) (post : α → Prop) : Prop :=
  ∀ c : Chance R, c.Fair → Ends x c (fun a c' => c'.Fair ∧ post a) fun _ _ => True

variable {post : α → Prop}

theorem fairly_pure {a : α} (h : post a) : Fairly (pure a : Luck R α) post := fun _ hc => ⟨hc, h⟩

theorem fairly_bind {x : Luck R α} {f : α → Luck R β} {post' : β → Prop} (hx : Fairly x post)
    (hf : ∀ a, post a → Fairly (f a) post') : Fairly (x >>= f) post' := fun c hc =>
  ends_bind.mpr ((hx c hc).imp fun a c' h => hf a h.2 c' h.1)

theorem fairly_fault (e : Fault) : Fairly (Act.fault e : Luck R α) post := fun _ _ => True.intro

/-- What never fails on fair sources. -/
theorem Lands.fairly {x : Luck R α} (h : Lands Chance.Fair x post) : Fairly x post := fun c hc =>
  (h c hc).sure

theorem fairly_drawOne : Fairly (drawOne : Luck R R) fun _ => True :=
  (lands_drawOne Chance.lasting_fair).fairly

theorem fairly_roll (p : R) : Fairly (roll p) fun _ => True :=
  (lands_roll Chance.lasting_fair p).fairly

/-- After a roll, whatever it gives. -/
theorem fairly_after_roll {p : R} {f : Bool → Luck R β} {post : β → Prop}
    (hf : ∀ b, Fairly (f b) post) : Fairly (roll p >>= f) post :=
  fairly_bind (fairly_roll p) fun b _ => hf b

theorem fairly_drawBelow {bound : Nat} (h : 0 < bound) :
    Fairly (drawBelow bound : Luck R Int) fun n => ∃ k : Nat, n = k ∧ k < bound :=
  (lands_drawBelow Chance.lasting_fair h).fairly

/-- A weighted choice is one of the values there are. -/
theorem fairly_pickWeighted (weight : α → R) (xs : List α) :
    Fairly (pickWeighted weight xs) fun x => x ∈ xs := by
  unfold pickWeighted
  simp only
  split
  · exact fairly_fault _
  · split
    · exact fairly_fault _
    · split
      · exact fairly_fault _
      · refine fairly_bind fairly_drawOne fun x _ => ?_
        split
        · rename_i value hvalue
          exact fairly_pure (List.mem_of_getElem? hvalue)
        · exact fairly_fault _

end Fairly

/-! ## 4. The steps of the cascade -/

namespace Order

variable {R : Type} [Scalar R]

/-- What is asked for, if anything, is no question. -/
def Unasking (a : Option Operation) : Prop := ∀ i, a ≠ some (.checkFor i)

theorem unasking_of_edits {a : Option Operation} (h : Edits a) : Unasking a := by
  rintro i rfl
  cases h _ rfl

theorem fairly_rollAvoided (allergies : List (Preference R)) :
    Fairly (rollAvoided allergies) fun _ => True :=
  (lands_rollAvoided Chance.Fair.draw allergies).fairly

theorem fairly_askRemoval (p : Personality R) (desired result : Sandwich) :
    Fairly (askRemoval p desired result) Unasking :=
  Lands.fairly ((lands_askRemoval Chance.Fair.draw p desired result).imp
    fun _ h => unasking_of_edits (Removal.edits h))

theorem fairly_askEarlier (p : Personality R) (ws : List Wish) (next : Nat) :
    Fairly (askEarlier p ws next) Unasking :=
  Lands.fairly ((lands_askEarlier Chance.Fair.draw p ws next).imp
    fun _ h => unasking_of_edits (Earlier.edits h))

theorem fairly_askSafety (p : Personality R) (result : Sandwich)
    (allergies : List (Preference R)) : Fairly (askSafety p result allergies) Unasking :=
  Lands.fairly ((lands_askSafety Chance.Fair.draw p result (List.Subset.refl allergies)).imp
    fun _ h => unasking_of_edits (Safety.edits h))

/-- **A craving** puts a favorite somewhere between the wishes. -/
theorem fairly_crave (favorites : List (Preference R)) (d : Sandwich) (next : Nat) :
    Fairly (crave favorites d next) fun a => Craves favorites d a.1 := by
  have hindex : ∀ k : Nat, k ≤ d.ingredients.length →
      min (indexIn d.ingredients.length (k : Int)) d.ingredients.length = k := fun k hk => by
    rw [indexIn, if_pos (Int.natCast_nonneg k), Int.toNat_natCast, Nat.min_eq_left hk]
  unfold crave
  refine fairly_bind (fairly_pickWeighted _ favorites) fun f hf => ?_
  split
  · exact fairly_pure .nothing
  · rename_i hleaf
    have hleaf : f.ingredient.isLeaf = true := by simpa using hleaf
    simp only
    split
    · rename_i hsize
      refine fairly_bind (fairly_drawBelow (Nat.sub_pos_of_lt hsize)) fun n hn => ?_
      obtain ⟨k, rfl, hk⟩ := hn
      have hplace := hindex (1 + k) (by omega)
      rw [Nat.cast_add, Nat.cast_one] at hplace
      refine fairly_pure ?_
      simp only [hplace]
      exact .favorite hf hleaf (by omega) fun _ => ⟨by omega, by omega⟩
    · refine fairly_pure ?_
      simp only [hindex _ (Nat.le_refl _)]
      exact .favorite hf hleaf (Nat.le_refl _) fun htwo => by omega

theorem fairly_impulse (p : Personality R) (d : Sandwich) (next : Nat) :
    Fairly (impulse p d next) fun a => Craves p.favorites d a.1 := by
  unfold impulse
  split
  · exact fairly_pure .nothing
  · refine fairly_after_roll fun impulsive => ?_
    split
    · split
      · exact fairly_pure .nothing
      · exact fairly_crave p.favorites d next
    · exact fairly_pure .nothing

/-- Whether it is neither known that there is some of an ingredient, nor was that just asked. -/
def Unsettled (o : Order) (i : Ingredient) : Prop :=
  o.desired.ensures i = false ∧ o.justAsked i = false

/-- **A question** is about something unsettled. -/
theorem returns_askNext_unsettled (p : Personality R) (o : Order) (result : Sandwich)
    (ws : List Wish) (next : Nat) :
    Returns (askNext p o result ws next) fun a => ∀ i, a = some (.checkFor i) → o.Unsettled i := by
  refine (returns_askNext p o result ws next).imp fun a h i hi => ?_
  cases h _ hi with
  | question wanted wish unsettled =>
    simp only [Bool.or_eq_false_iff] at unsettled
    exact ⟨unsettled.1.1, unsettled.2⟩

end Order

/-! ## 5. One turn -/

namespace Order

/-- What comes of a turn. There may be a craving; what is said is remembered, and asks for what is
desired then; and a question is about something unsettled. -/
structure Turned {R : Type} (favorites : List (Preference R)) (o : Order)
    (answer : Except Fault (Option Operation)) (o' : Order) : Prop where
  craves : Craves favorites o.desired o'.desired
  said : ∀ x, answer = .ok (some x) → o'.history = x :: o.history
  asks : ∀ x i, answer = .ok (some x) → x.AsksFor i → i.name ∈ o'.desired.names
  unsettled : ∀ i, answer = .ok (some (.checkFor i)) → o.Unsettled i

/-- What the cascade chooses, and the wishes afterwards. -/
structure Chosen {R : Type} (favorites : List (Preference R)) (o : Order) (a : Option Operation)
    (o' : Order) : Prop where
  craves : Craves favorites o.desired o'.desired
  unsettled : ∀ i, a = some (.checkFor i) → o.Unsettled i

section

variable {R : Type} {favorites : List (Preference R)}

/-- Where nothing is said, there may have been a craving. -/
theorem Craves.turned {o o' : Order} (h : Craves favorites o.desired o'.desired)
    {answer : Except Fault (Option Operation)} (hanswer : ∀ x, answer ≠ .ok (some x)) :
    Turned favorites o answer o' :=
  ⟨h, fun x hx => absurd hx (hanswer x), fun x _ hx => absurd hx (hanswer x),
    fun i hx => absurd hx (hanswer (.checkFor i))⟩

/-- Thanks ask for nothing. -/
theorem turned_thanks (o : Order) (result : Sandwich) :
    Turned favorites o (.ok (some .affirm)) (o.archive .affirm result) := by
  refine ⟨.nothing, fun x hx => ?_, fun x i hx hasks => ?_, nofun⟩
  · cases hx
    rfl
  · cases hx
    cases hasks

end

variable {R : Type} [Scalar R] {favorites : List (Preference R)} {t : Table R} {result : Sandwich}

/-- An act of luck at a table leaves the order as it is, and a fair source fair. -/
theorem ends_lucky_fair {α : Type} {x : Luck R α} {post : α → Prop} (h : Fairly x post)
    (hc : t.mind.chance.Fair) :
    Ends (Table.lucky x) t (fun a t' => post a ∧ t'.order = t.order ∧ t'.mind.chance.Fair)
      fun _ t' => t'.order = t.order := by
  unfold Table.lucky Mind.lucky
  rw [ends_on, ends_on]
  exact (h _ hc).mono (fun a c h => ⟨h.2, rfl, h.1⟩) fun _ _ _ => rfl

/-- An answer is no question and the end; without one the next step starts from the same order. -/
theorem ends_firstOf_chosen {x : Luck R (Option Operation)} {y : Act (Table R) (Option Operation)}
    (hx : Fairly x Unasking) (hc : t.mind.chance.Fair)
    (hy : ∀ t' : Table R, t'.order = t.order → t'.mind.chance.Fair →
      Ends y t' (fun a t'' => Chosen favorites t'.order a t''.order)
        fun _ t'' => Craves favorites t'.order.desired t''.order.desired) :
    Ends (firstOf (Table.lucky x) y) t (fun a t' => Chosen favorites t.order a t'.order)
      fun _ t' => Craves favorites t.order.desired t'.order.desired := by
  unfold firstOf
  rw [ends_bind]
  refine (ends_lucky_fair hx hc).mono (fun a t' h => ?_) fun _ t' h => ?_
  · obtain ⟨hunasking, horder, hc'⟩ := h
    cases a with
    | some x =>
      rw [ends_pure, horder]
      exact ⟨.nothing, fun i hi => absurd hi (hunasking i)⟩
    | none =>
      rw [← horder]
      exact hy t' horder hc'
  · rw [h]
    exact .nothing

/-- The last steps: there may be a craving, and a question about something unsettled. -/
theorem ends_askOnward_chosen (p : Personality R) (avoided : List (Preference R)) (next : Nat)
    (hc : t.mind.chance.Fair) :
    Ends (askOnward p avoided result next) t
      (fun a t' => Chosen p.favorites t.order a t'.order)
      fun _ t' => Craves p.favorites t.order.desired t'.order.desired := by
  unfold askOnward
  rw [ends_bind, ends_get, ends_bind]
  refine (ends_lucky_fair (fairly_impulse p _ _) hc).mono (fun a t₁ h₁ => ?_) fun _ t₁ h₁ => ?_
  · obtain ⟨hcraves, -, -⟩ := h₁
    -- a craving changes nothing that is known to be there
    have hunsettled : ∀ i, ({ t.order with desired := a.1 } : Order).Unsettled i →
        t.order.Unsettled i := fun i h => by
      refine ⟨?_, h.2⟩
      rw [← h.1, Sandwich.ensures, Sandwich.ensures, hcraves.ensured]
    simp only [Table.reorder, ends_bind, ends_modify]
    have hask := returns_askNext_unsettled p { t.order with desired := a.1 } result
      (Wish.listOf (anyIncludes avoided) a.1 result) a.2
    unfold Table.lucky Mind.lucky
    rw [ends_on, ends_on]
    refine (hask _).mono (fun answer c h => ?_) fun _ c _ => hcraves
    split
    · rw [ends_bind, ends_modify, ends_pure]
      exact ⟨hcraves, fun i hi => hunsettled i (h i hi)⟩
    · exact ⟨hcraves, fun i hi => hunsettled i (h i hi)⟩
  · rw [h₁]
    exact .nothing

/-- **The cascade**: there may be a craving, and a question about something unsettled. -/
theorem ends_pick_chosen (result : Sandwich) (hc : t.mind.chance.Fair) :
    Ends (pick result) t (fun a t' => Chosen t.mind.personality.favorites t.order a t'.order)
      fun _ t' => Craves t.mind.personality.favorites t.order.desired t'.order.desired := by
  have hstart : ∀ {t' : Table R}, t'.order = t.order →
      Craves t.mind.personality.favorites t.order.desired t'.order.desired := fun h => by
    rw [h]
    exact .nothing
  unfold pick
  rw [ends_bind, ends_get]
  simp only
  split
  · exact ⟨.nothing, nofun⟩
  · rw [ends_bind]
    refine (ends_lucky_fair (fairly_rollAvoided _) hc).mono (fun avoided t₁ h₁ => ?_)
      fun _ t₁ h₁ => hstart h₁
    obtain ⟨-, horder₁, hc₁⟩ := h₁
    rw [ends_bind]
    refine (ends_lucky_fair (fairly_roll _) hc₁).mono (fun forgot t₂ h₂ => ?_)
      fun _ t₂ h₂ => hstart (h₂.trans horder₁)
    obtain ⟨-, horder₂, hc₂⟩ := h₂
    rw [← horder₁, ← horder₂]
    refine ends_firstOf_chosen (fairly_askRemoval _ _ _) hc₂ fun t₃ h₃ hc₃ => ?_
    refine ends_firstOf_chosen (fairly_askEarlier _ _ _) hc₃ fun t₄ h₄ hc₄ => ?_
    refine ends_firstOf_chosen (fairly_askSafety _ _ _) hc₄ fun t₅ h₅ hc₅ => ?_
    exact ends_askOnward_chosen _ _ _ hc₅

/-- A table where something was learned: the wishes, what was said and the favorites are the same,
and a fair source is fair. -/
structure Resumes (t t' : Table R) : Prop where
  desired : t'.order.desired = t.order.desired
  history : t'.order.history = t.order.history
  favorites : t'.mind.personality.favorites = t.mind.personality.favorites
  fair : t'.mind.chance.Fair

/-- A customer that learns keeps its wishes. -/
theorem leaves_learn_resumes (last : Operation) (result : Sandwich) (hc : t.mind.chance.Fair) :
    Leaves (learn last result) t (Resumes t) := by
  unfold learn
  refine ends_bind.mpr (ends_get.mpr ?_)
  split
  · obtain ⟨l, r, hupgrade, -⟩ := t.mind.personality.upgrade_spec last.skills
    have hfavorites : (relieved (t.mind.personality.upgrade last.skills)).favorites =
        t.mind.personality.favorites := by
      rw [hupgrade]
      rfl
    exact ⟨rfl, rfl, hfavorites, hc.draw⟩
  · split
    · exact ⟨rfl, rfl, rfl, hc⟩
    · exact ⟨rfl, rfl, rfl, hc⟩

/-- A customer whose skills fade keeps its wishes. -/
theorem leaves_fade_resumes (used : List Skill) (hc : t.mind.chance.Fair) :
    Leaves (Table.minded (Mind.fade used)) t (Resumes t) := by
  obtain ⟨l, r, -, h⟩ := t.mind.personality.fade_spec used
  have hfaded : (t.mind.personality.fade used).2.favorites = t.mind.personality.favorites := by
    rcases h with ⟨-, h⟩ | ⟨k, -, -, h⟩ <;> rw [h] <;> rfl
  unfold Leaves Ends
  rw [perform_fade]
  generalize t.mind.personality.fade used = faded at hfaded
  obtain ⟨r, p⟩ := faded
  cases r <;> exact ⟨rfl, rfl, hfaded, hc⟩

/-- What comes of a turn after something was learned. -/
theorem Resumes.turned {t' : Table R} (h : Resumes t t') {answer : Except Fault (Option Operation)}
    {o : Order} (hturned : Turned t'.mind.personality.favorites t'.order answer o) :
    Turned t.mind.personality.favorites t.order answer o := by
  obtain ⟨hcraves, hsaid, hasks, hunsettled⟩ := hturned
  rw [h.favorites, h.desired] at hcraves
  refine ⟨hcraves, fun x hx => ?_, hasks, fun i hi => ?_⟩
  · rw [← h.history]
    exact hsaid x hx
  · have hopen := hunsettled i hi
    unfold Unsettled justAsked at hopen ⊢
    rwa [h.desired, h.history] at hopen

/-- The rest of a turn. -/
theorem ends_proceed_turned (result : Sandwich) (used : List Skill) (polite : Bool)
    (hc : t.mind.chance.Fair) :
    Ends (proceed result used polite) t
      (fun a t' => Turned t.mind.personality.favorites t.order (.ok a) t'.order)
      fun e t' => Turned t.mind.personality.favorites t.order (.error e) t'.order := by
  unfold proceed
  refine ends_bind.mpr ((leaves_fade_resumes used hc).mono (fun _ t₁ h₁ => ?_) fun e t₁ h₁ => ?_)
  · refine ends_bind.mpr (ends_get.mpr ?_)
    split
    · exact h₁.turned (Craves.nothing.turned nofun)
    · split
      · exact h₁.turned (turned_thanks t₁.order result)
      · have hpick := ((ends_pick_chosen result h₁.fair).and (ends_pick_apt result t₁)).and
          (leaves_pick result t₁)
        refine ends_bind.mpr (hpick.mono (fun a t₂ h₂ => ?_) fun e t₂ h₂ => ?_)
        · obtain ⟨⟨hchosen, hapt⟩, desired, pending, hrewished⟩ := h₂
          cases a with
          | none => exact h₁.turned (hchosen.craves.turned nofun)
          | some x =>
            refine h₁.turned ⟨hchosen.craves, fun y hy => ?_, fun y i hy hasks => ?_,
              fun i hi => hchosen.unsettled i (Except.ok.inj hi)⟩
            · cases hy
              show x :: t₂.order.history = _
              rw [hrewished]
            · cases hy
              have hlacks := (hapt x rfl).lacks_of_asksFor hasks
              exact List.count_pos_iff.mp (Nat.zero_lt_of_lt hlacks)
        · exact h₁.turned (h₂.1.1.turned nofun)
  · exact h₁.turned (Craves.nothing.turned nofun)

/-- **A turn**: there may be a craving; what is said is remembered, and asks for what is desired;
and a question is about something unsettled. -/
theorem ends_next_turned (result : Sandwich) (hc : t.mind.chance.Fair) :
    Ends (next result) t
      (fun a t' => Turned t.mind.personality.favorites t.order (.ok a) t'.order)
      fun e t' => Turned t.mind.personality.favorites t.order (.error e) t'.order := by
  unfold next
  refine ends_bind.mpr (ends_get.mpr ?_)
  simp only
  split
  · split
    · exact turned_thanks t.order result
    · refine ends_bind.mpr ((leaves_learn_resumes _ result hc).mono (fun a t₁ h₁ => ?_)
        fun e t₁ h₁ => h₁.turned (Craves.nothing.turned nofun))
      exact (ends_proceed_turned result a.1 a.2 h₁.fair).mono (fun _ _ h => h₁.turned h)
        fun _ _ h => h₁.turned h
  · exact ends_proceed_turned result [] false hc

end Order

/-! ## 6. A run -/

/-- What a customer does with an order: it takes a turn in view of a sandwich, which comes to an
answer or a fault, or it hears what the server says. -/
inductive Occasion where
  | turned (result : Sandwich) (answer : Except Fault (Option Operation))
  | heard (x : Operation)

/-- An occasion, with the order before and after it. -/
structure Moment where
  before : Order
  occasion : Occasion
  after : Order

namespace Moment

/-- Whether it is a turn. -/
def isTurn (m : Moment) : Bool :=
  match m.occasion with
  | .turned _ _ => true
  | .heard _ => false

/-- What is said in a turn, if anything. -/
def said (m : Moment) : Option Operation :=
  match m.occasion with
  | .turned _ (.ok a) => a
  | _ => none

/-- The names that are forgone on hearing something. -/
def forgone (m : Moment) : List String :=
  match m.occasion with
  | .heard x => m.before.forgone x
  | .turned _ _ => []

/-- The names that are confirmed by what is heard. -/
def confirmed (m : Moment) : List String :=
  match m.occasion with
  | .heard x => x.confirmed
  | .turned _ _ => []

end Moment

/-- What happens in one moment: what comes of a turn, or of hearing something. -/
inductive Happens {R : Type} (favorites : List (Preference R)) : Moment → Prop where
  | turned {o o' : Order} {result : Sandwich} {answer : Except Fault (Option Operation)}
      (turned : o.Turned favorites answer o') : Happens favorites ⟨o, .turned result answer, o'⟩
  | heard (o : Order) (x : Operation) : Happens favorites ⟨o, .heard x, o.hear x⟩

namespace Happens

variable {R : Type} {favorites : List (Preference R)} {m : Moment} {name : String}

/-- What is not desired and no favorite will not be desired. -/
theorem not_desired (h : Happens favorites m)
    (hfavorites : ∀ f ∈ favorites, f.ingredient.name ≠ name)
    (hname : name ∉ m.before.desired.names) : name ∉ m.after.desired.names := by
  cases h with
  | turned turned => exact turned.craves.not_mem_names hfavorites hname
  | heard o x =>
    intro hmem
    obtain ⟨i, hi, hin⟩ := List.mem_map.mp hmem
    rw [Order.ingredients_hear] at hi
    exact hname (List.mem_map.mpr ⟨i, List.mem_of_mem_filter hi, hin⟩)

/-- What is forgone is not desired any more. -/
theorem forgone (h : Happens favorites m) (hname : name ∈ m.forgone) :
    name ∉ m.after.desired.names := by
  cases h with
  | turned turned => cases hname
  | heard o x =>
    intro hmem
    obtain ⟨i, hi, rfl⟩ := List.mem_map.mp hmem
    rw [Order.ingredients_hear, List.mem_filter, decide_eq_true_eq] at hi
    exact hi.2 hname

/-- What is known to be there stays known. -/
theorem knows (h : Happens favorites m) (hname : m.before.Knows name) : m.after.Knows name := by
  obtain ⟨j, hj, hjn⟩ := hname
  cases h with
  | turned turned => exact ⟨j, turned.craves.ensured ▸ hj, hjn⟩
  | heard o x => exact ⟨j, Order.ensured_hear x o hj, hjn⟩

/-- What is confirmed is known to be there. -/
theorem confirmed (h : Happens favorites m) (hname : name ∈ m.confirmed) : m.after.Knows name := by
  cases h with
  | turned turned => cases hname
  | heard o x => exact Order.knows_hear x o hname

/-- What is asked for is desired then. -/
theorem desired_of_asksFor (h : Happens favorites m) {x : Operation} (hx : m.said = some x)
    {i : Ingredient} (hasks : x.AsksFor i) : i.name ∈ m.after.desired.names := by
  cases h with
  | @turned o o' result answer turned =>
    cases answer with
    | ok a => exact turned.asks x i (congrArg Except.ok hx) hasks
    | error e => cases hx
  | heard o x => cases hx

/-- What is asked about is unsettled. -/
theorem unsettled (h : Happens favorites m) {i : Ingredient} (hi : m.said = some (.checkFor i)) :
    m.before.Unsettled i := by
  cases h with
  | @turned o o' result answer turned =>
    cases answer with
    | ok a => exact turned.unsettled i (congrArg Except.ok hi)
    | error e => cases hi
  | heard o x => cases hi

/-- What is said is remembered. -/
theorem history (h : Happens favorites m) {x : Operation} (hx : m.said = some x) :
    m.after.history = x :: m.before.history := by
  cases h with
  | @turned o o' result answer turned =>
    cases answer with
    | ok a => exact turned.said x (congrArg Except.ok hx)
    | error e => cases hx
  | heard o x => cases hx

end Happens

/-- What is known to be there is not unsettled. -/
theorem Order.Knows.not_unsettled {o : Order} {i : Ingredient} (h : o.Knows i.name) :
    ¬ o.Unsettled i := by
  intro hopen
  obtain ⟨j, hj, hname⟩ := h
  have hensures : o.desired.ensures i = true :=
    List.any_eq_true.mpr ⟨j, hj, beq_iff_eq.mpr hname⟩
  rw [hopen.1] at hensures
  cases hensures

section

variable {R : Type} [Scalar R]

/-- A turn of some machine with these favorites and a fair source, or something heard. -/
inductive Passes (favorites : List (Preference R)) : Moment → Prop where
  | turned {t t' : Table R} {result : Sandwich} {answer : Except Fault (Option Operation)}
      (likes : t.mind.personality.favorites = favorites) (fair : t.mind.chance.Fair)
      (turn : (Order.next result).perform t = (answer, t')) :
      Passes favorites ⟨t.order, .turned result answer, t'.order⟩
  | heard (o : Order) (x : Operation) : Passes favorites ⟨o, .heard x, o.hear x⟩

/-- What happens to an order one after the other, and the order after it. Only the order is carried
from one moment to the next, and the favorites stay the same: the machine may be any. -/
inductive Run (favorites : List (Preference R)) : Order → List Moment → Order → Prop where
  | nothing {o : Order} : Run favorites o [] o
  | step {m : Moment} {ms : List Moment} {o : Order} (first : Passes favorites m)
      (rest : Run favorites m.after ms o) : Run favorites m.before (m :: ms) o

variable {favorites : List (Preference R)} {m : Moment}

/-- **A single moment.** -/
theorem Passes.happens (h : Passes favorites m) : Happens favorites m := by
  cases h with
  | heard o x => exact .heard o x
  | @turned t t' result answer likes fair turn =>
    have hends := Order.ends_next_turned result fair
    unfold Ends at hends
    rw [turn, likes] at hends
    cases answer with
    | ok a => exact .turned hends
    | error e => exact .turned hends

namespace Run

variable {o o' : Order} {ms : List Moment}

theorem happens (h : Run favorites o ms o') : ∀ m ∈ ms, Happens favorites m := by
  induction h with
  | nothing => exact List.forall_mem_nil _
  | step first _ ih => exact List.forall_mem_cons.mpr ⟨first.happens, ih⟩

/-- What every moment keeps is there before each of them. -/
theorem keeps {P : Order → Prop} (hkeeps : ∀ m, Happens favorites m → P m.before → P m.after)
    (h : Run favorites o ms o') (ho : P o) : ∀ m ∈ ms, P m.before := by
  induction h with
  | nothing => exact List.forall_mem_nil _
  | step first _ ih =>
    exact List.forall_mem_cons.mpr ⟨ho, ih (hkeeps _ first.happens ho)⟩

/-- **What every moment keeps sticks** from the moment it is there. -/
theorem sticks {α : Type} {P : α → Order → Prop}
    (hkeeps : ∀ a m, Happens favorites m → P a m.before → P a m.after)
    (h : Run favorites o ms o') : ms.Pairwise fun m m' => ∀ a, P a m.after → P a m'.before := by
  induction h with
  | nothing => exact .nil
  | step _ rest ih => exact .cons (fun m' hm' a ha => rest.keeps (hkeeps a) ha m' hm') ih

/-- The next turn starts with what was said before. -/
theorem history (h : Run favorites o ms o') :
    ∀ m ∈ (ms.filter Moment.isTurn).head?, m.before.history = o.history := by
  induction h with
  | nothing =>
    intro m hm
    cases hm
  | step first rest ih =>
    cases first with
    | turned likes fair turn =>
      intro m hm
      cases hm
      rfl
    | heard o x =>
      obtain ⟨desired, pending, hrewished⟩ := Order.rewished_hear x o
      intro m hm
      refine (ih m hm).trans ?_
      show (o.hear x).history = o.history
      rw [hrewished]

/-- **Nothing is asked twice in a row**: not in two turns with no turn between them. -/
theorem questions (h : Run favorites o ms o') :
    (ms.filter Moment.isTurn).IsChain fun m m' => ∀ i j, m.said = some (.checkFor i) →
      m'.said = some (.checkFor j) → j.name ≠ i.name := by
  induction h with
  | nothing => exact .nil
  | @step m ms o first rest ih =>
    by_cases hturn : m.isTurn = true
    · rw [List.filter_cons_of_pos hturn]
      refine ih.cons fun m' hm' i j hi hj hname => ?_
      have hhistory := (rest.history m' hm').trans (first.happens.history hi)
      have hmem : m' ∈ ms := List.mem_of_mem_filter (List.mem_of_mem_head? hm')
      have hasked := ((rest.happens m' hmem).unsettled hj).2
      unfold Order.justAsked at hasked
      rw [hhistory] at hasked
      exact beq_eq_false_iff_ne.mp hasked hname.symm
    · rwa [List.filter_cons_of_neg hturn]

end Run

/-- **What a customer hears sticks.** Whatever happens to its order: what is forgone once and is no
favorite's name is not asked for later, neither for one nor for several nor whether there is any;
what is confirmed once is not asked about later; and no question is put in two turns with no turn
between them. Hearing takes what is forgone out of the ingredients desired. A turn puts a favorite
that is a leaf among them at most, and they stay the same at both ends if there were two or more. -/
theorem Order.heard_sticks {o o' : Order} {ms : List Moment} (h : Run favorites o ms o') :
    (ms.Pairwise fun m m' => ∀ name ∈ m.forgone, (∀ f ∈ favorites, f.ingredient.name ≠ name) →
      ∀ x i, m'.said = some x → x.AsksFor i → i.name ≠ name) ∧
    (ms.Pairwise fun m m' => ∀ name ∈ m.confirmed, ∀ i, m'.said = some (.checkFor i) →
      i.name ≠ name) ∧
    ((ms.filter Moment.isTurn).IsChain fun m m' => ∀ i j, m.said = some (.checkFor i) →
      m'.said = some (.checkFor j) → j.name ≠ i.name) ∧
    ∀ m ∈ ms, match m.occasion with
      | .heard _ => m.after.desired.ingredients =
          m.before.desired.ingredients.filter fun i => decide (i.name ∉ m.forgone)
      | .turned _ _ => m.after.desired = m.before.desired ∨
          ∃ f ∈ favorites, f.ingredient.isLeaf = true ∧
            (∃ place ≤ m.before.desired.ingredients.length, m.after.desired =
              { m.before.desired with
                ingredients := m.before.desired.ingredients.insertIdx place f.ingredient.leaf }) ∧
            (2 ≤ m.before.desired.ingredients.length →
              m.after.desired.ingredients.head? = m.before.desired.ingredients.head? ∧
              m.after.desired.ingredients.getLast? = m.before.desired.ingredients.getLast?) := by
  have hhappens := h.happens
  refine ⟨?_, ?_, h.questions, fun m hm => ?_⟩
  · have hsticks := h.sticks (P := fun name o =>
      (∀ f ∈ favorites, f.ingredient.name ≠ name) → name ∉ o.desired.names)
      fun name m hm hname hfavorites => hm.not_desired hfavorites (hname hfavorites)
    refine hsticks.imp_of_mem fun hm hm' hsticks name hname hfavorites x i hx hasks heq => ?_
    have hbefore := hsticks name (fun _ => (hhappens _ hm).forgone hname) hfavorites
    refine (hhappens _ hm').not_desired hfavorites hbefore ?_
    rw [← heq]
    exact (hhappens _ hm').desired_of_asksFor hx hasks
  · have hsticks := h.sticks (P := fun name o => o.Knows name) fun name m hm hname => hm.knows hname
    refine hsticks.imp_of_mem fun hm hm' hsticks name hname i hi heq => ?_
    subst heq
    exact (hsticks i.name ((hhappens _ hm).confirmed hname)).not_unsettled
      ((hhappens _ hm').unsettled hi)
  · cases hhappens m hm with
    | heard o x => exact ingredients_hear x o
    | turned turned => exact turned.craves.spec

namespace Order.House

/-- The order of a customer that wants a bread and a tomato. -/
noncomputable def greedy : Order :=
  { impatient.order with desired := { ingredients := [bread, tomato] } }

/-- A customer that wants a bread and a tomato hears that there are no tomatoes, and what it asks
for then is none. -/
theorem heard_no_tomatoes : ∃ x t', (next {}).perform impatient = (.ok (some x), t') ∧
    Run impatient.mind.personality.favorites greedy
      [⟨greedy, .heard (.persist (.removeAll tomato)), impatient.order⟩,
        ⟨impatient.order, .turned {} (.ok (some x)), t'.order⟩] t'.order ∧
    ∀ i, x.AsksFor i → i.name ≠ tomato.name := by
  obtain ⟨x, t', hnext, -, -⟩ := exists_portion stands_impatient (by decide) (by decide)
  have hheard : greedy.hear (.persist (.removeAll tomato)) = impatient.order := rfl
  have hturn : Passes impatient.mind.personality.favorites
      ⟨impatient.order, .turned {} (.ok (some x)), t'.order⟩ :=
    .turned rfl stands_impatient.craves.ready.chance.fair hnext
  have hhears : Passes impatient.mind.personality.favorites
      ⟨greedy, .heard (.persist (.removeAll tomato)), impatient.order⟩ := .heard greedy _
  have hrun : Run impatient.mind.personality.favorites greedy _ t'.order :=
    .step hhears (.step hturn .nothing)
  refine ⟨x, t', hnext, hrun, fun i hasks => ?_⟩
  have hsticks := (List.pairwise_cons.mp (heard_sticks hrun).1).1 _ (List.mem_singleton_self _)
  exact hsticks tomato.name (List.mem_singleton_self _) nofun x i rfl hasks

end Order.House

end

end DeliTalk
