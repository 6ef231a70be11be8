import DeliTalk.Proofs.Aptness

/-!
# What a customer steers clear of

An allergy that is certain to be heeded is among those avoided whatever the draws are, and nothing
it covers is turned to: neither as the next wish, nor as an earlier one that never made it, nor
after a craving has moved the wishes. Forgetting is the one step that does not look where it lands:
who forgets a wish turns to the one behind it, whatever that is.

* `Operation.AsksFor`: asking for an ingredient in any of the ways a customer does.
* `Order.Skips`: forgetting a wish and landing on an ingredient.
* `Order.yields_rollAvoided_certain`: what is certain to be heeded is avoided.
* `Order.ends_impulse_steady`: a craving moves the next wish along with the others.
* `Order.pick_spares`: an allergen is not asked for, unless forgetting lands on it.
-/

namespace DeliTalk

open Act

/-! ## 1. Asking for an ingredient -/

/-- Whether an operation asks for an ingredient, for several of it, or whether there is any. -/
inductive Operation.AsksFor (i : Ingredient) : Operation → Prop where
  | one (r : Relative) : AsksFor i (.add i r)
  | several (n : Nat) (r : Relative) : AsksFor i (.repeated n (.add i r))
  | question : AsksFor i (.checkFor i)

namespace Order

variable {i : Ingredient}

/-- What is asked for, if anything, is not some ingredient. -/
def Spares (i : Ingredient) (a : Option Operation) : Prop := ∀ x ∈ a, ¬ x.AsksFor i

theorem spares_none : Spares i none := by
  intro x hx
  cases hx

section

variable {R : Type} {allergies : List (Preference R)} {o : Order} {result : Sandwich}

/-- What is asked for is lacking. -/
theorem Apt.lacks_of_asksFor {x : Operation} (h : Apt allergies o result x) (hasks : x.AsksFor i) :
    result.count i.name < o.desired.count i.name := by
  cases hasks with
  | one r =>
    cases h with
    | addition lacks place => omega
  | several n r =>
    cases h with
    | several pos lacks => omega
  | question =>
    cases h with
    | question pending lacks => exact lacks

end

end Order

/-! ## 2. Wishes passed over -/

namespace Wish

variable {suppressed : Ingredient → Bool} {desired result : Sandwich}

/-- A wish is for the ingredient desired at its place, and passed over if that is. -/
theorem getElem?_listOf {k : Nat} {w : Wish}
    (h : (listOf suppressed desired result)[k]? = some w) :
    desired.ingredients[k]? = some w.ingredient ∧ w.suppressed = suppressed w.ingredient := by
  rw [listOf, List.getElem?_zipWith_eq_some] at h
  obtain ⟨j, present, hj, -, rfl⟩ := h
  exact ⟨hj, rfl⟩

/-- There is a wish for each ingredient desired. -/
theorem exists_listOf {k : Nat} {i : Ingredient} (h : desired.ingredients[k]? = some i) :
    ∃ w, (listOf suppressed desired result)[k]? = some w ∧ w.ingredient = i := by
  have hlength : (presence desired.names result.names).length = desired.ingredients.length := by
    rw [length_presence, Sandwich.names, List.length_map]
  obtain ⟨hk, -⟩ := List.getElem?_eq_some_iff.mp h
  refine ⟨⟨i, (presence desired.names result.names)[k], suppressed i⟩, ?_, rfl⟩
  rw [listOf, List.getElem?_zipWith_eq_some]
  exact ⟨i, _, h, List.getElem?_eq_getElem (by omega), rfl⟩

/-- What follows a run as long as it can be is not of its kind. -/
theorem getElem?_length_takeWhile {α : Type} (p : α → Bool) :
    ∀ {l : List α} {a : α}, l[(l.takeWhile p).length]? = some a → p a = false
  | b :: rest, a, h => by
    by_cases hb : p b = true
    · rw [List.takeWhile_cons_of_pos hb] at h
      exact getElem?_length_takeWhile p h
    · rw [List.takeWhile_cons_of_neg hb] at h
      cases h
      exact Bool.eq_false_iff.mpr hb

/-- **The wish to turn to** is not passed over. -/
theorem target_not_suppressed {ws : List Wish} {w : Wish} (h : ws[target ws]? = some w) :
    w.suppressed = false := by
  rw [target, passOver, ← List.getElem?_drop] at h
  exact getElem?_length_takeWhile _ h

theorem not_suppressed_of_isOpen {w : Wish} (h : w.isOpen = true) : w.suppressed = false := by
  unfold isOpen at h
  simpa using (Bool.and_eq_true_iff.mp h).2

end Wish

namespace Order

/-! ## 3. What is avoided -/

/-- **Who is certain to heed an allergy** avoids it, whatever the draws are. -/
theorem yields_rollAvoided_certain : ∀ allergies : List (Preference ℝ),
    Yields (rollAvoided allergies) fun avoided => ∀ a ∈ allergies, 1 ≤ a.severity → a ∈ avoided
  | [] => yields_pure fun a ha => by cases ha
  | b :: rest => by
    have hroll : Yields (roll b.severity) fun heeded => 1 ≤ b.severity → heeded = true := by
      by_cases hb : 1 ≤ b.severity
      · exact (yields_roll_one hb).imp fun _ h _ => h
      · exact (yields_roll _).imp fun _ _ h => absurd h hb
    refine yields_bind hroll fun heeded hheeded => ?_
    refine yields_bind (yields_rollAvoided_certain rest) fun more hmore => yields_pure ?_
    intro a ha hcertain
    cases ha with
    | head =>
      rw [if_pos (hheeded hcertain)]
      exact List.mem_cons_self
    | tail _ hrest =>
      have hin := hmore a hrest hcertain
      split
      · exact List.mem_cons_of_mem _ hin
      · exact hin

/-- Forgetting a wish and landing on an ingredient: the allergies are rolled for first, then
forgetfulness, and the wish behind the one to turn to is that ingredient. -/
def Skips (t : Table ℝ) (result : Sandwich) (i : Ingredient) : Prop :=
  ∃ avoided c,
    (rollAvoided t.mind.personality.allergies).perform t.mind.chance = (.ok avoided, c) ∧
      c.draw.1 < t.mind.personality.forgetfulness ∧
      t.order.desired.ingredients[
        Wish.target (Wish.listOf (anyIncludes avoided) t.order.desired result) + 1]? = some i

/-- Who never forgets skips nothing. -/
theorem not_skips {t : Table ℝ} (hc : t.mind.chance.Proper)
    (hforgets : t.mind.personality.forgetfulness ≤ 0) (result : Sandwich) (i : Ingredient) :
    ¬ Skips t result i := by
  intro h
  obtain ⟨avoided, c, hperform, hlt, -⟩ := h
  obtain ⟨avoided', c', hperform', hc', -⟩ := (yields_rollAvoided t.mind.personality.allergies
    t.mind.chance hc).exists
  rw [hperform] at hperform'
  cases hperform'
  exact absurd (hc'.draw_nonneg) (not_le.mpr (hlt.trans_le hforgets))

/-! ## 4. The steps of the cascade -/

section Steps

variable {i : Ingredient} {result : Sandwich} {avoided : List (Preference ℝ)}

theorem yields_askRemoval_spares (p : Personality ℝ) (desired result : Sandwich) :
    Yields (askRemoval p desired result) (Spares i) :=
  (lands_askRemoval Chance.Proper.draw p desired result).imp fun a h x hx => by
    cases h x hx <;> exact nofun

theorem yields_askSafety_spares (p : Personality ℝ) (result : Sandwich)
    (allergies : List (Preference ℝ)) : Yields (askSafety p result allergies) (Spares i) :=
  (lands_askSafety Chance.Proper.draw p result (List.Subset.refl allergies)).imp fun a h x hx => by
    cases h x hx
    exact nofun

/-- An open wish is not for what is avoided. -/
theorem ne_of_not_suppressed {desired : Sandwich} {k : Nat} {w : Wish}
    (hi : anyIncludes avoided i = true)
    (hw : (Wish.listOf (anyIncludes avoided) desired result)[k]? = some w)
    (h : w.suppressed = false) : w.ingredient ≠ i := by
  intro heq
  rw [(Wish.getElem?_listOf hw).2, heq, hi] at h
  cases h

theorem yields_askEarlier_spares (hi : anyIncludes avoided i = true) (p : Personality ℝ)
    (desired : Sandwich) (next : Nat) :
    Yields (askEarlier p (Wish.listOf (anyIncludes avoided) desired result) next) (Spares i) := by
  have hne : ∀ {k : Nat} {w : Wish},
      ((Wish.listOf (anyIncludes avoided) desired result).take next).findIdx? (·.isOpen) = some k →
      (Wish.listOf (anyIncludes avoided) desired result)[k]? = some w → w.ingredient ≠ i :=
    fun hk hw => ne_of_not_suppressed hi hw
      (Wish.not_suppressed_of_isOpen (Wish.isOpen_of_findIdx? (List.take_prefix next _) hk hw))
  refine (lands_askEarlier Chance.Proper.draw p _ next).imp fun a h x hx hasks => ?_
  cases h x hx with
  | placed first wish =>
    cases hasks
    exact hne first wish rfl
  | top first wish =>
    cases hasks
    exact hne first wish rfl

/-- The wish asked for is the next one, which is not for what is avoided, or else an open one. -/
theorem wanted?_spares {desired : Sandwich} {next k : Nat} {w : Wish}
    (hi : anyIncludes avoided i = true) (hnext : desired.ingredients[next]? ≠ some i)
    (hk : wanted? (Wish.listOf (anyIncludes avoided) desired result) next = some k)
    (hw : (Wish.listOf (anyIncludes avoided) desired result)[k]? = some w) :
    w.ingredient ≠ i := by
  have hopen : (Wish.listOf (anyIncludes avoided) desired result).findIdx? (·.isOpen) = some k →
      w.ingredient ≠ i := fun hfound => ne_of_not_suppressed hi hw
    (Wish.not_suppressed_of_isOpen (Wish.isOpen_of_findIdx? (List.prefix_refl _) hfound hw))
  unfold wanted? at hk
  split at hk
  · split at hk
    · exact hopen hk
    · cases hk
      intro heq
      rw [(Wish.getElem?_listOf hw).1, heq] at hnext
      exact hnext rfl
  · exact hopen hk

theorem returns_askNext_spares (hi : anyIncludes avoided i = true) {desired : Sandwich}
    {next : Nat} (hnext : desired.ingredients[next]? ≠ some i) (p : Personality ℝ) (o : Order) :
    Returns (askNext p o result (Wish.listOf (anyIncludes avoided) desired result) next)
      (Spares i) := by
  refine (returns_askNext p o result _ next).imp fun a h x hx hasks => ?_
  cases h x hx with
  | question wanted wish unsettled =>
    cases hasks
    exact wanted?_spares hi hnext wanted wish rfl
  | several wanted wish run pos count =>
    cases hasks
    exact wanted?_spares hi hnext wanted wish rfl
  | one wanted wish =>
    cases hasks
    exact wanted?_spares hi hnext wanted wish rfl

end Steps

/-! ## 5. A craving moves the wishes -/

/-- Where a value of a list is after another one was put into it. -/
theorem getElem?_insertIdx_moved {α : Type} (l : List α) (k n : Nat) (x : α) :
    (l.insertIdx k x)[if k ≤ n then n + 1 else n]? = l[n]? := by
  split
  · rw [List.getElem?_insertIdx_of_gt (by omega)]
    rfl
  · exact List.getElem?_insertIdx_of_lt (by omega)

/-- A weighted choice may fail, but it leaves a proper source. -/
theorem ends_pickWeighted_proper {α : Type} (weight : α → ℝ) (xs : List α) {c : Chance ℝ}
    (hc : c.Proper) :
    Ends (pickWeighted weight xs) c (fun _ c' => c'.Proper) fun _ _ => True := by
  unfold pickWeighted
  simp only
  split
  · exact True.intro
  · split
    · exact True.intro
    · split
      · exact True.intro
      · rw [ends_bind]
        refine ((yields_drawOne c hc).imp fun x c' h => ?_).sure
        split
        · exact h.1
        · exact True.intro

section Craving

variable {desired : Sandwich} {next : Nat} {c : Chance ℝ}

/-- Whether a place of the wishes after a craving holds what another one held before. -/
def Steady (desired : Sandwich) (next : Nat) (a : Sandwich × Nat) (c : Chance ℝ) : Prop :=
  c.Proper ∧ a.1.ingredients[a.2]? = desired.ingredients[next]?

theorem ends_crave_steady (favorites : List (Preference ℝ)) (hc : c.Proper) :
    Ends (crave favorites desired next) c (Steady desired next) fun _ _ => True := by
  -- the place is counted from the front, so the insertion is where the comparison says
  have hmoved : ∀ (k : Nat) (x : Ingredient), k ≤ desired.ingredients.length →
      (desired.ingredients.insertIdx (min (indexIn desired.ingredients.length (k : Int))
        desired.ingredients.length) x)[if (k : Int) ≤ next then next + 1 else next]? =
          desired.ingredients[next]? := by
    intro k x hk
    have hindex : min (indexIn desired.ingredients.length (k : Int))
        desired.ingredients.length = k := by
      rw [indexIn, if_pos (by omega), Int.toNat_natCast, Nat.min_eq_left hk]
    rw [hindex]
    simp only [Int.ofNat_le]
    exact getElem?_insertIdx_moved _ k next x
  unfold crave
  rw [ends_bind]
  refine (ends_pickWeighted_proper _ favorites hc).imp fun favorite c₁ hc₁ => ?_
  split
  · exact ⟨hc₁, rfl⟩
  · simp only
    split
    · rename_i hsize
      rw [ends_bind]
      refine ((yields_drawBelow (Nat.sub_pos_of_lt hsize) c₁ hc₁).imp fun n c₂ h => ?_).sure
      obtain ⟨hc₂, k, rfl, hk⟩ := h
      have hplace := hmoved (1 + k) favorite.ingredient.leaf (by omega)
      rw [Nat.cast_add, Nat.cast_one] at hplace
      exact ⟨hc₂, hplace⟩
    · exact ⟨hc₁, hmoved _ _ (Nat.le_refl _)⟩

/-- **A craving moves the next wish** along with the others. -/
theorem ends_impulse_steady (p : Personality ℝ) (hc : c.Proper) :
    Ends (impulse p desired next) c (Steady desired next) fun _ _ => True := by
  unfold impulse
  split
  · exact ⟨hc, rfl⟩
  · rw [ends_bind]
    refine ((yields_roll _ c hc).imp fun impulsive c' hc' => ?_).sure
    split
    · split
      · exact ⟨hc'.1, rfl⟩
      · exact ends_crave_steady p.favorites hc'.1
    · exact ⟨hc'.1, rfl⟩

end Craving

/-! ## 6. The cascade -/

section Cascade

variable {t : Table ℝ} {i : Ingredient} {result : Sandwich} {avoided : List (Preference ℝ)}

/-- An act of luck at a table, and what it was. -/
theorem ends_lucky_performed {α : Type} {x : Luck ℝ α} {post : α → Prop} (h : Yields x post)
    (hc : t.mind.chance.Proper) :
    Ends (Table.lucky x) t (fun a t' => post a ∧ ∃ c, c.Proper ∧
      x.perform t.mind.chance = (.ok a, c) ∧ t' = t.withChance c) never := by
  obtain ⟨a, c, hperform, hc', ha⟩ := (h _ hc).exists
  unfold Table.lucky Mind.lucky
  rw [ends_on, ends_on]
  exact ends_of_perform hperform ⟨ha, c, hc', hperform, rfl⟩

/-- An answer that spares an ingredient is the end; without one the next step starts from the same
table with another source. -/
theorem ends_firstOf_spares {x : Luck ℝ (Option Operation)}
    {y : Act (Table ℝ) (Option Operation)} (hx : Yields x (Spares i))
    (hc : t.mind.chance.Proper)
    (hy : ∀ c, c.Proper → Ends y (t.withChance c) (fun a _ => Spares i a) fun _ _ => True) :
    Ends (firstOf (Table.lucky x) y) t (fun a _ => Spares i a) fun _ _ => True := by
  unfold firstOf
  rw [ends_bind]
  refine ((Table.ends_lucky hx hc).imp fun a t' h => ?_).sure
  obtain ⟨ha, c, hc', rfl⟩ := h
  cases a with
  | some x => exact ha
  | none => exact hy c hc'

/-- The last steps of the cascade, if the next wish is not for what is avoided. -/
theorem ends_askOnward_spares (hi : anyIncludes avoided i = true) {next : Nat}
    (hnext : t.order.desired.ingredients[next]? ≠ some i) (hc : t.mind.chance.Proper)
    (p : Personality ℝ) :
    Ends (askOnward p avoided result next) t (fun a _ => Spares i a) fun _ _ => True := by
  unfold askOnward
  rw [ends_bind, ends_get, ends_bind]
  unfold Table.lucky Mind.lucky
  rw [ends_on, ends_on]
  refine (ends_impulse_steady p hc).imp fun a c h => ?_
  obtain ⟨desired, next'⟩ := a
  obtain ⟨-, hplace⟩ := h
  simp only [Table.reorder, ends_bind, ends_modify, ends_on]
  rw [← hplace] at hnext
  refine (returns_askNext_spares hi hnext p _ _).imp fun a c' ha => ?_
  split
  · simp only [ends_bind, ends_modify, ends_pure]
    exact ha
  · exact ha

/-- Where forgetting leads is for what is avoided only if it skips onto it. -/
theorem next_spares (desired result : Sandwich) (forgot : Bool)
    (hi : anyIncludes avoided i = true) (hskip : forgot = true → desired.ingredients[
      Wish.target (Wish.listOf (anyIncludes avoided) desired result) + 1]? ≠ some i) :
    let ws := Wish.listOf (anyIncludes avoided) desired result
    desired.ingredients[if forgot = true ∧ Wish.target ws + 1 < ws.length
      then Wish.target ws + 1 else Wish.target ws]? ≠ some i := by
  intro ws
  split
  · rename_i h
    exact hskip h.1
  · intro heq
    obtain ⟨w, hw, hingredient⟩ := Wish.exists_listOf heq
    exact ne_of_not_suppressed hi hw (Wish.target_not_suppressed hw) hingredient

/-- **The cascade** spares what is certain to be avoided, unless forgetting skips onto it. -/
theorem ends_pick_spares {a : Preference ℝ} (hc : t.mind.chance.Proper)
    (ha : a ∈ t.mind.personality.allergies) (hcertain : 1 ≤ a.severity)
    (hi : a.ingredient.includes i = true) (hskip : ¬ Skips t result i) :
    Ends (pick result) t (fun a _ => Spares i a) fun _ _ => True := by
  unfold pick
  rw [ends_bind, ends_get]
  simp only
  split
  · exact spares_none
  · rw [ends_bind]
    refine ((ends_lucky_performed (yields_rollAvoided_certain _) hc).imp
      fun avoided t₁ h₁ => ?_).sure
    obtain ⟨havoided, c₁, hc₁, hrolled, rfl⟩ := h₁
    have hcovered : anyIncludes avoided i = true :=
      List.any_eq_true.mpr ⟨a, havoided a ha hcertain, hi⟩
    rw [ends_bind]
    refine ((ends_lucky_performed (yields_roll _) hc₁).imp fun forgot t₂ h₂ => ?_).sure
    obtain ⟨-, c₂, hc₂, hforgot, rfl⟩ := h₂
    have hnext := next_spares t.order.desired result forgot hcovered fun hf heq => by
        subst hf
        refine hskip ⟨avoided, c₁, hrolled, ?_, heq⟩
        have hdecide := congrArg Prod.fst hforgot
        exact of_decide_eq_true (Except.ok.inj hdecide)
    refine ends_firstOf_spares (yields_askRemoval_spares _ _ _) hc₂ fun c₃ hc₃ => ?_
    refine ends_firstOf_spares (yields_askEarlier_spares hcovered _ _ _) hc₃ fun c₄ hc₄ => ?_
    refine ends_firstOf_spares (yields_askSafety_spares _ _ _) hc₄ fun c₅ hc₅ => ?_
    refine ends_askOnward_spares hcovered ?_ hc₅ _
    exact hnext

end Cascade

/-- **A customer does not ask for an allergen it is certain to avoid**, neither for one nor for
several nor whether there is any, unless it forgets a wish and the one behind it is the allergen. -/
theorem pick_spares {t t' : Table ℝ} {a : Preference ℝ} {i : Ingredient} {result : Sandwich}
    {x : Operation} (hc : t.mind.chance.Proper) (ha : a ∈ t.mind.personality.allergies)
    (hcertain : 1 ≤ a.severity) (hi : a.ingredient.includes i = true)
    (hskip : ¬ Skips t result i) (h : (pick result).perform t = (.ok (some x), t')) :
    ¬ x.AsksFor i := by
  have hends := ends_pick_spares hc ha hcertain hi hskip
  unfold Ends at hends
  rw [h] at hends
  exact hends x rfl

namespace House

/-- The customer with an allergy to tomatoes that it is certain to heed. -/
noncomputable def allergic : Personality ℝ := { customer with allergies := [⟨tomato, 1⟩] }

/-- The upper half of the bread. -/
def lid : Ingredient := ⟨"white-bread-top", "lu", none⟩

/-- What it wants, the tomato first. -/
def wantedAll : Sandwich := { ingredients := [tomato, bread, lid] }

/-- What it got so far. -/
def gotLid : Sandwich := { ingredients := [lid] }

/-- Its wishes: the tomato is passed over and the lid is there. -/
def wishes : List Wish := [⟨tomato, false, true⟩, ⟨bread, false, false⟩, ⟨lid, true, false⟩]

/-- The customer at its table before some draw; all draws are zero. -/
noncomputable def allergicTable (used : Nat) : Table ℝ :=
  ⟨{ desired := wantedAll }, allergic, .scripted (fun _ => 0) used⟩

/-- Of what is missing before the lid it asks for the bread, which belongs before the lid. -/
theorem pick_bread : (pick gotLid).perform (allergicTable 0) =
    (.ok (some (.add bread (.before lid))), allergicTable 4) := by
  have hroll : ∀ (p : ℝ) (k : Nat), (roll p).perform (.scripted (fun _ => 0) k) =
      (.ok (decide (0 < p)), .scripted (fun _ => 0) (k + 1)) := fun p k => rfl
  have hshy : allergic.shyness * (1.0 - allergic.stress) = 0 := zero_mul _
  have hplaces : (0 : ℝ) < allergic.language.adposition := zero_lt_one
  have havoided : (Table.lucky (rollAvoided allergic.allergies)).perform (allergicTable 0) =
      (.ok [⟨tomato, 1⟩], allergicTable 1) := by
    show (Except.ok (if decide ((0 : ℝ) < 1) = true then [Preference.mk tomato 1] else []),
      allergicTable 1) = _
    rw [decide_eq_true zero_lt_one, if_pos rfl]
  have hforgets : (Table.lucky (roll allergic.forgetfulness)).perform (allergicTable 1) =
      (.ok false, allergicTable 2) := by
    show (Except.ok (decide ((0 : ℝ) < 0)), allergicTable 2) = _
    rw [decide_eq_false (lt_irrefl 0)]
  have hremoval : (Table.lucky (askRemoval allergic wantedAll gotLid)).perform (allergicTable 2) =
      (.ok none, allergicTable 2) := rfl
  have hearlier : (askEarlier allergic wishes 3).perform (.scripted (fun _ => 0) 2) =
      (.ok (some (.add bread (.before lid))), .scripted (fun _ => 0) 4) := by
    have hopen : (wishes.take 3).findIdx? (·.isOpen) = some 1 := rfl
    have hwish : wishes[1]? = some ⟨bread, false, false⟩ := rfl
    unfold askEarlier
    simp only [hopen, hwish]
    rw [perform_bind, rollShy, hroll, hshy]
    simp only [lt_irrefl, decide_false, Bool.false_eq_true, if_false]
    rw [perform_bind, hroll]
    simp only [hplaces, decide_true, if_true]
    rfl
  have hlucky : (Table.lucky (askEarlier allergic wishes 3)).perform (allergicTable 2) =
      (.ok (some (.add bread (.before lid))), allergicTable 4) := by
    unfold Table.lucky Mind.lucky
    rw [perform_on, perform_on]
    simp only [allergicTable, hearlier]
  have hmissing : isMissing wantedAll gotLid = true := rfl
  have hwishes : Wish.listOf (anyIncludes [Preference.mk tomato (1 : ℝ)]) wantedAll gotLid =
      wishes := rfl
  have htarget : Wish.target wishes = 3 := rfl
  have hplain : (allergicTable 0).order.desired = wantedAll := rfl
  have hallergic : (allergicTable 0).mind.personality = allergic := rfl
  unfold pick
  rw [perform_bind, perform_get]
  simp only [hplain, hallergic, hmissing, Bool.not_true, Bool.false_eq_true, if_false]
  rw [perform_bind, havoided]
  simp only
  rw [perform_bind, hforgets]
  simp only [hwishes, htarget, Bool.false_eq_true, false_and, if_false]
  unfold firstOf
  rw [perform_bind, hremoval]
  simp only
  rw [perform_bind, hlucky]
  rfl

/-- Although a tomato is missing as well, it is not what is asked for. -/
theorem pick_spares_tomato :
    (pick gotLid).perform (allergicTable 0) =
        (.ok (some (.add bread (.before lid))), allergicTable 4) ∧
      ¬ (Operation.add bread (.before lid)).AsksFor tomato :=
  have hproper : (allergicTable 0).mind.chance.Proper := fun _ => ⟨le_refl 0, zero_lt_one⟩
  have hskip : ¬ Skips (allergicTable 0) gotLid tomato :=
    not_skips hproper (le_refl 0) gotLid tomato
  ⟨pick_bread, pick_spares hproper List.mem_cons_self (le_refl 1) tomato.covers_self hskip
    pick_bread⟩

end House

end Order

end DeliTalk
