import DeliTalk.Proofs.Portions

/-!
# A customer asks for nothing in vain

Whatever a customer wants and whatever it got, what it asks for next would do something: it asks
whether there is something it lacks, has something taken off that is there and is unwanted, or
has no more added than it lacks, in a place that exists. A wish is absent when the wishes before
it use up all there is of its kind; counting wishes therefore says how much is lacking.

* `Order.Apt`: what may be asked for in view of a result.
* `Wish.getElem?_presence`: which wishes are there.
* `Wish.fits_run`: a run of absent wishes is lacking as a whole.
* `Order.Apt.changes`: what is asked for changes the sandwich, if it is no question.
* `Order.pick_apt`: the cascade, for any draws.
-/

namespace DeliTalk

/-! ## 1. What is apt -/

/-- A place there is on a sandwich: its top, or next to something on it. -/
inductive Sandwich.Offers (s : Sandwich) : Relative → Prop where
  | top : Offers s .top
  | before {a : Ingredient} (h : s.contains a = true) : Offers s (.before a)
  | after {a : Ingredient} (h : s.contains a = true) : Offers s (.after a)

namespace Order

variable {R : Type}

/-- What a customer with some allergies may ask for in view of a result. -/
inductive Apt (allergies : List (Preference R)) (o : Order) (result : Sandwich) :
    Operation → Prop where
  /-- The question for something lacking, whose answer it then waits for. -/
  | question {i : Ingredient} (pending : o.pending = some i)
      (lacks : result.count i.name < o.desired.count i.name) :
      Apt allergies o result (.checkFor i)
  /-- Having something taken off that is too much or an allergen. -/
  | removal {i : Ingredient} (there : i ∈ result.ingredients)
      (unwanted : o.desired.count i.name < result.count i.name ∨ anyIncludes allergies i = true) :
      Apt allergies o result (.remove i)
  /-- Having something too much taken off for good. -/
  | ban {i : Ingredient} (there : i ∈ result.ingredients)
      (surplus : o.desired.count i.name < result.count i.name) :
      Apt allergies o result (.persist (.remove i))
  /-- One more of something lacking, in a place that exists. -/
  | addition {i : Ingredient} {r : Relative}
      (lacks : result.count i.name + 1 ≤ o.desired.count i.name) (place : result.Offers r) :
      Apt allergies o result (.add i r)
  /-- Several more of something, as many as are lacking at most. -/
  | several {i : Ingredient} {n : Nat} (pos : 1 ≤ n)
      (lacks : result.count i.name + n ≤ o.desired.count i.name) :
      Apt allergies o result (.repeated n (.add i .top))

end Order

/-! ## 2. Wishes -/

namespace Wish

/-- **A wish is there** as long as the wishes before it do not use up its kind. -/
theorem getElem?_presence : ∀ (names available : List String) (i : Nat),
    (presence names available)[i]? =
      names[i]?.map fun name => decide ((names.take i).count name < available.count name)
  | [], _, _ => rfl
  | name :: rest, available, 0 => by
    unfold presence
    split
    · rename_i h
      simpa using h
    · rename_i h
      simpa using h
  | name :: rest, available, i + 1 => by
    unfold presence
    split
    · rename_i h
      have hpos := List.count_pos_iff.mpr h
      simp only [List.getElem?_cons_succ, getElem?_presence rest, List.take_succ_cons]
      refine congrArg (rest[i]?.map ·) (funext fun other => decide_eq_decide.mpr ?_)
      rw [List.count_erase, List.count_cons]
      by_cases heq : name = other
      · subst heq
        simp only [beq_self_eq_true, if_true]
        omega
      · simp only [beq_eq_false_iff_ne.mpr heq, Bool.false_eq_true, if_false]
        omega
    · rename_i h
      have hzero := List.count_eq_zero.mpr h
      simp only [List.getElem?_cons_succ, getElem?_presence rest, List.take_succ_cons]
      refine congrArg (rest[i]?.map ·) (funext fun other => decide_eq_decide.mpr ?_)
      rw [List.count_cons]
      by_cases heq : name = other
      · subst heq
        simp [hzero]
      · simp only [beq_eq_false_iff_ne.mpr heq, Bool.false_eq_true, if_false]
        omega

theorem length_presence : ∀ names available : List String,
    (presence names available).length = names.length
  | [], _ => rfl
  | name :: rest, available => by
    unfold presence
    split <;> rw [List.length_cons, List.length_cons, length_presence rest]

section

variable {suppressed : Ingredient → Bool} {desired result : Sandwich} {ws : List Wish}
  (hws : ws = listOf suppressed desired result) {i : Nat} {w : Wish}

include hws

/-- There is one wish for each ingredient desired. -/
theorem map_listOf : ws.map (·.ingredient.name) = desired.names := by
  subst hws
  have hlength : desired.ingredients.length ≤ (presence desired.names result.names).length := by
    rw [length_presence, Sandwich.names, List.length_map]
  have hzip : listOf suppressed desired result =
      (desired.ingredients.zip (presence desired.names result.names)).map fun x =>
        ⟨x.1, x.2, suppressed x.1⟩ := by
    rw [List.map_zip_eq_zipWith]
    rfl
  rw [hzip, List.map_map, Sandwich.names]
  conv_rhs => rw [← List.map_fst_zip hlength, List.map_map]
  rfl

/-- How much of a kind is desired below a wish, counted in wishes. -/
theorem count_take (i : Nat) (name : String) : (desired.names.take i).count name =
    (ws.take i).countP fun v => v.ingredient.name == name := by
  rw [← map_listOf hws, ← List.map_take, List.count, List.countP_map]
  rfl

/-- How much of a kind is desired, counted in wishes. -/
theorem count_desired (name : String) :
    desired.count name = ws.countP fun v => v.ingredient.name == name := by
  rw [Sandwich.count, ← map_listOf hws, List.count, List.countP_map]
  rfl

/-- A wish is there as long as the wishes before it do not use up its kind. -/
theorem present_eq (h : ws[i]? = some w) : w.present = decide
    ((ws.take i).countP (fun v => v.ingredient.name == w.ingredient.name) <
      result.count w.ingredient.name) := by
  have hname : desired.names[i]? = some w.ingredient.name := by
    rw [← map_listOf hws, List.getElem?_map, h]
    rfl
  have hpresence := getElem?_presence desired.names result.names i
  rw [hname, Option.map_some, count_take hws] at hpresence
  subst hws
  rw [listOf, List.getElem?_zipWith_eq_some] at h
  obtain ⟨x, y, -, hy, rfl⟩ := h
  rw [hpresence] at hy
  exact (Option.some.inj hy).symm

/-- What is there is on the sandwich. -/
theorem contains_of_present (h : w ∈ ws) (hpresent : w.present = true) :
    result.contains w.ingredient = true := by
  obtain ⟨i, hi⟩ := List.mem_iff_getElem?.mp h
  rw [present_eq hws hi, decide_eq_true_eq] at hpresent
  have hmem : w.ingredient.name ∈ result.names := List.count_pos_iff.mp (Nat.zero_lt_of_lt hpresent)
  obtain ⟨j, hj, hname⟩ := List.mem_map.mp hmem
  exact List.any_eq_true.mpr ⟨j, hj, beq_iff_eq.mpr hname⟩

/-- **A run of absent wishes is lacking as a whole.** -/
theorem fits_run (h : ws[i]? = some w) (habsent : w.present = false) :
    result.count w.ingredient.name + Order.runLength ws i w.ingredient ≤
      desired.count w.ingredient.name := by
  let same : Wish → Bool := fun v => v.ingredient.name == w.ingredient.name
  have hbefore : result.count w.ingredient.name ≤ (ws.take i).countP same := by
    rw [present_eq hws h, decide_eq_false_iff_not] at habsent
    exact Nat.le_of_not_lt habsent
  have hrun : ((ws.drop (i + 1)).takeWhile fun v =>
      v.ingredient.same w.ingredient && !v.present).length ≤ (ws.drop (i + 1)).countP same := by
    rw [← List.countP_eq_length (p := same) |>.mpr ?_]
    · exact (List.takeWhile_sublist _).countP_le
    · intro v hv
      exact (Bool.and_eq_true_iff.mp (List.all_eq_true.mp List.all_takeWhile v hv)).1
  obtain ⟨hi, hw⟩ := List.getElem?_eq_some_iff.mp h
  have hsplit : ws = ws.take i ++ w :: ws.drop (i + 1) := by
    rw [← hw, List.cons_getElem_drop_succ, List.take_append_drop]
  have hself : same w = true := beq_self_eq_true _
  rw [count_desired hws, Order.runLength]
  calc _ ≤ (ws.take i).countP same + (1 + (ws.drop (i + 1)).countP same) :=
        Nat.add_le_add hbefore (Nat.add_le_add_left hrun 1)
    _ = ws.countP same := by
        conv_rhs => rw [hsplit, List.countP_append, List.countP_cons_of_pos hself]
        omega

/-- An absent wish is lacking. -/
theorem fits_one (h : ws[i]? = some w) (habsent : w.present = false) :
    result.count w.ingredient.name + 1 ≤ desired.count w.ingredient.name := by
  have hrun := fits_run hws h habsent
  unfold Order.runLength at hrun
  omega

/-- The place next to the nearest wish that is there exists. -/
theorem offers_placement (i : Nat) : result.Offers (Order.placement ws i) := by
  have hthere : ∀ {vs : List Wish} {v : Wish}, (∀ u ∈ vs, u ∈ ws) →
      vs.find? (·.present) = some v → result.contains v.ingredient = true := by
    intro vs v hsub hv
    exact contains_of_present hws (hsub v (List.mem_of_find?_eq_some hv)) (List.find?_some hv)
  unfold Order.placement
  split
  · rename_i w _ hv
    exact .after (hthere (fun u hu => List.mem_of_mem_take (List.mem_reverse.mp hu)) hv)
  · rename_i hv
    exact .before (hthere (fun u hu => List.mem_of_mem_drop hu) hv)
  · exact .top

end

/-- The first open wish of a list, found in the list or in a part at its front, is open. -/
theorem isOpen_of_findIdx? {vs ws : List Wish} (hfront : vs <+: ws) {i : Nat} {w : Wish}
    (h : vs.findIdx? (·.isOpen) = some i) (hw : ws[i]? = some w) : w.isOpen = true := by
  obtain ⟨hi, hopen, -⟩ := List.findIdx?_eq_some_iff_getElem.mp h
  rw [hfront.getElem hi] at hopen
  rw [List.getElem?_eq_getElem (Nat.lt_of_lt_of_le hi hfront.length_le)] at hw
  cases hw
  exact hopen

theorem absent_of_isOpen {w : Wish} (h : w.isOpen = true) : w.present = false := by
  unfold isOpen at h
  simpa using (Bool.and_eq_true_iff.mp h).1

end Wish

/-! ## 3. The steps of the cascade -/

namespace Order

open Act

variable {R : Type} {allergies : List (Preference R)} {o : Order} {result : Sandwich}
  {t : Table R}

/-- What is asked for, if anything, is apt. -/
def AptIfAny (allergies : List (Preference R)) (o : Order) (result : Sandwich)
    (a : Option Operation) : Prop := ∀ x ∈ a, Apt allergies o result x

/-- What there is too much of is on the sandwich. -/
theorem firstExtra?_spec {desired : Sandwich} {i : Ingredient}
    (h : firstExtra? desired result = some i) :
    i ∈ result.ingredients ∧ desired.count i.name < result.count i.name :=
  ⟨List.mem_of_find?_eq_some h, by simpa using List.find?_some h⟩

/-- What is taken off is there, and too much. -/
theorem Removal.apt {x : Operation} (h : Removal o.desired result x) :
    Apt allergies o result x := by
  cases h with
  | once first =>
    obtain ⟨hthere, hsurplus⟩ := firstExtra?_spec first
    exact .removal hthere (Or.inl hsurplus)
  | ban first =>
    obtain ⟨hthere, hsurplus⟩ := firstExtra?_spec first
    exact .ban hthere hsurplus

/-- What never made it is lacking. -/
theorem Earlier.apt {suppressed : Ingredient → Bool} {next : Nat} {x : Operation}
    (h : Earlier (Wish.listOf suppressed o.desired result) next x) : Apt allergies o result x := by
  have hlacks : ∀ {k : Nat} {w : Wish},
      ((Wish.listOf suppressed o.desired result).take next).findIdx? (·.isOpen) = some k →
      (Wish.listOf suppressed o.desired result)[k]? = some w →
      result.count w.ingredient.name + 1 ≤ o.desired.count w.ingredient.name := fun hk hw =>
    Wish.fits_one rfl hw
      (Wish.absent_of_isOpen (Wish.isOpen_of_findIdx? (List.take_prefix next _) hk hw))
  cases h with
  | placed first wish => exact .addition (hlacks first wish) (Wish.offers_placement rfl _)
  | top first wish => exact .addition (hlacks first wish) .top

/-- An allergen that is taken off is there. -/
theorem Safety.apt {x : Operation} (h : Safety allergies result x) : Apt allergies o result x := by
  cases h with
  | @allergen a i allergy first =>
    have hcovered : anyIncludes allergies i = true :=
      List.any_eq_true.mpr ⟨a, allergy, List.find?_some first⟩
    exact .removal (List.mem_of_find?_eq_some first) (Or.inr hcovered)

/-- The wish to ask for is not there yet. -/
theorem absent_of_wanted? {ws : List Wish} {next i : Nat} {w : Wish}
    (h : wanted? ws next = some i) (hw : ws[i]? = some w) : w.present = false := by
  unfold wanted? at h
  split at h
  · rename_i v hv
    split at h
    · exact Wish.absent_of_isOpen (Wish.isOpen_of_findIdx? (List.prefix_refl ws) h hw)
    · rename_i habsent
      cases h
      rw [hv] at hw
      cases hw
      exact Bool.eq_false_iff.mpr habsent
  · exact Wish.absent_of_isOpen (Wish.isOpen_of_findIdx? (List.prefix_refl ws) h hw)

/-- **The next wish** is asked for, or for several of it, or whether they have it. -/
theorem Onward.apt {suppressed : Ingredient → Bool} {next : Nat} {x : Operation}
    (h : Onward o result (Wish.listOf suppressed o.desired result) next x) :
    Apt allergies (o.awaits x) result x := by
  cases h with
  | question wanted wish unsettled =>
    exact .question rfl (Wish.fits_one rfl wish (absent_of_wanted? wanted wish))
  | @several k n w wanted wish run pos count =>
    have hrun := Wish.fits_run rfl wish (absent_of_wanted? wanted wish)
    refine .several pos ?_
    show _ + n ≤ o.desired.count _
    omega
  | one wanted wish => exact .addition (Wish.fits_one rfl wish (absent_of_wanted? wanted wish)) .top

/-- Whatever is picked is apt in view of what is desired then. -/
theorem Picked.apt {x : Operation} {o' : Order} (h : Picked allergies o result x o') :
    Apt allergies o' result x := by
  cases h with
  | removal h => exact h.apt
  | earlier h => exact h.apt
  | safety h => exact h.apt
  | onward h => exact h.apt

/-! ## 4. The cascade -/

variable [Scalar R]

/-- **The cascade** picks something apt, or nothing. -/
theorem ends_pick_apt (result : Sandwich) (t : Table R) :
    Ends (pick result) t
      (fun a t' => AptIfAny t.mind.personality.allergies t'.order result a) fun _ _ => True :=
  (ends_pick_picked result t).imp fun _ _ h x hx => (h x hx).2.apt

/-! ## 5. What is apt has an effect -/

/-- A place on a sandwich is one of its places, or the one on top. -/
theorem insertionPoint_of_offers {s : Sandwich} {r : Relative} (h : s.Offers r) :
    ∃ place, Operation.insertionPoint r s.ingredients = some place ∧
      place ≤ s.ingredients.length := by
  have hanchored : ∀ {a : Ingredient}, s.contains a = true →
      ∃ k, s.ingredients.findIdx? (·.same a.leaf) = some k ∧ k < s.ingredients.length := by
    intro a ha
    obtain ⟨j, hj, hsame⟩ := List.any_eq_true.mp ha
    have hfound : (s.ingredients.findIdx? (·.same a.leaf)).isSome = true :=
      List.findIdx?_isSome ▸ List.any_eq_true.mpr ⟨j, hj, hsame⟩
    obtain ⟨k, hk⟩ := Option.isSome_iff_exists.mp hfound
    exact ⟨k, hk, (List.findIdx?_eq_some_iff_getElem.mp hk).1⟩
  cases h with
  | top => exact ⟨_, rfl, Nat.le_refl _⟩
  | before h =>
    obtain ⟨k, hk, hlt⟩ := hanchored h
    exact ⟨k, hk, Nat.le_of_lt hlt⟩
  | @after a h =>
    obtain ⟨k, hk, hlt⟩ := hanchored h
    refine ⟨k + 1, ?_, hlt⟩
    show (s.ingredients.findIdx? (·.same a.leaf)).map (· + 1) = _
    rw [hk]
    rfl

/-- What adding something would do, where there is a place for it. -/
theorem imagine_add (i : Ingredient) {r : Relative} (h : result.Offers r) :
    ∃ place, Operation.insertionPoint r result.ingredients = some place ∧
      place ≤ result.ingredients.length ∧ (Operation.add i r).imagine R result =
        { result with ingredients := result.ingredients.insertIdx place i.leaf } := by
  obtain ⟨place, hplace, hle⟩ := insertionPoint_of_offers h
  refine ⟨place, hplace, hle, ?_⟩
  unfold Operation.imagine Operation.apply Operation.applyAdd
  simp only [hplace]
  rfl

/-- One more ingredient, where there is a place for it. -/
theorem length_imagine_add {i : Ingredient} {r : Relative} (h : result.Offers r) :
    ((Operation.add i r).imagine R result).names.length = result.names.length + 1 := by
  obtain ⟨place, -, hle, himagine⟩ := imagine_add (R := R) i h
  rw [himagine, Sandwich.names, Sandwich.names, List.length_map, List.length_map,
    List.length_insertIdx_of_le_length hle]

/-- One ingredient less, where it is. -/
theorem length_withoutFirst {i : Ingredient} (h : i ∈ result.ingredients) :
    (Operation.withoutFirst i result).names.length + 1 = result.names.length := by
  have hlength := List.length_eraseP_of_mem (p := fun j : Ingredient => j.same i) h
    (beq_self_eq_true i.name)
  have hpos := List.length_pos_of_mem h
  simp only [Operation.withoutFirst, Sandwich.names, List.length_map, hlength]
  omega

/-- **What is apt changes the sandwich**, unless it is a question. -/
theorem Apt.changes {x : Operation} (h : Apt allergies o result x)
    (hnoquestion : ∀ i, x ≠ .checkFor i) : (x.imagine R result).names ≠ result.names := by
  intro hsame
  have hlength := congrArg List.length hsame
  cases h with
  | question => exact hnoquestion _ rfl
  | removal there =>
    have := length_withoutFirst there
    change (Operation.withoutFirst _ result).names.length = _ at hlength
    omega
  | ban there =>
    have := length_withoutFirst there
    change (Operation.withoutFirst _ result).names.length = _ at hlength
    omega
  | addition lacks place =>
    rw [length_imagine_add place] at hlength
    omega
  | several pos lacks =>
    rw [Operation.imagine_portion (.several _)] at hlength
    simp only [Operation.topped, Sandwich.names, List.length_map, List.length_append,
      List.length_replicate] at hlength
    omega

/-- **A customer asks for nothing in vain.** Whatever it picks is apt in view of what it desires
afterwards, and would change the sandwich if it is no question. -/
theorem pick_apt {result : Sandwich} {t t' : Table R} {x : Operation}
    (h : (pick result).perform t = (.ok (some x), t')) :
    Apt t.mind.personality.allergies t'.order result x ∧
      ((∀ i, x ≠ .checkFor i) → (x.imagine R result).names ≠ result.names) := by
  have hends := ends_pick_apt result t
  unfold Ends at hends
  rw [h] at hends
  have hapt := hends x rfl
  exact ⟨hapt, hapt.changes⟩

namespace House

/-- The lower half of a bread. -/
def bread : Ingredient := ⟨"white-bread-bottom", "li", none⟩

/-- A tomato. -/
def tomato : Ingredient := ⟨"tomato", "to", none⟩

/-- What is wanted. -/
def wanted : Sandwich := { ingredients := [bread] }

/-- What came instead. -/
def got : Sandwich := { ingredients := [tomato] }

/-- A customer that knows every word and is never shy. -/
noncomputable def customer : Personality ℝ :=
  { Personality.standard with shyness := 0, forgetfulness := 0, language := .uniform 1 }

/-- The customer at its table before some draw: it wants a bread, and all draws are zero. -/
noncomputable def table (used : Nat) : Table ℝ :=
  ⟨{ desired := wanted }, customer, .scripted (fun _ => 0) used⟩

/-- Who finds a tomato on it instead has it taken off for good. -/
theorem pick_tomato :
    (pick got).perform (table 0) = (.ok (some (.persist (.remove tomato))), table 3) := by
  have hroll : ∀ (p : ℝ) (k : Nat), (roll p).perform (.scripted (fun _ => 0) k) =
      (.ok (decide (0 < p)), .scripted (fun _ => 0) (k + 1)) := fun p k => rfl
  have hadverbs : (0 : ℝ) < customer.language.adverbs := zero_lt_one
  have hshy : customer.shyness * (1.0 - customer.stress) = 0 := zero_mul _
  have havoided : (Table.lucky (rollAvoided customer.allergies)).perform (table 0) =
      (.ok [], table 0) := rfl
  have hforgets : (Table.lucky (roll customer.forgetfulness)).perform (table 0) =
      (.ok false, table 1) := by
    show (Except.ok (decide ((0 : ℝ) < 0)), table 1) = _
    rw [decide_eq_false (lt_irrefl 0)]
  have hremoval : (askRemoval customer wanted got).perform (.scripted (fun _ => 0) 1) =
      (.ok (some (.persist (.remove tomato))), .scripted (fun _ => 0) 3) := by
    have hextra : firstExtra? wanted got = some tomato := rfl
    unfold askRemoval
    simp only [hextra]
    rw [perform_bind, rollShy, hroll, hshy]
    simp only [lt_irrefl, decide_false, Bool.false_eq_true, if_false]
    rw [perform_bind, hroll]
    simp only [hadverbs, decide_true, if_true]
    rfl
  have hlucky : (Table.lucky (askRemoval customer wanted got)).perform (table 1) =
      (.ok (some (.persist (.remove tomato))), table 3) := by
    unfold Table.lucky Mind.lucky
    rw [perform_on, perform_on]
    simp only [table, hremoval]
  have hmissing : isMissing wanted got = true := rfl
  have hplain : (table 0).order.desired = wanted := rfl
  have hcustomer : (table 0).mind.personality = customer := rfl
  unfold pick
  rw [perform_bind, perform_get]
  simp only [hplain, hcustomer, hmissing, Bool.not_true, Bool.false_eq_true, if_false]
  rw [perform_bind, havoided]
  simp only
  rw [perform_bind, hforgets]
  simp only
  unfold firstOf
  rw [perform_bind, hlucky]
  rfl

/-- The tomato was on it, it was unwanted, and without it the sandwich is another one. -/
theorem pick_apt_tomato :
    (pick got).perform (table 0) = (.ok (some (.persist (.remove tomato))), table 3) ∧
      Apt customer.allergies (table 3).order got (.persist (.remove tomato)) ∧
      ((Operation.persist (.remove tomato)).imagine ℝ got).names ≠ ["tomato"] :=
  have hapt := pick_apt pick_tomato
  ⟨pick_tomato, hapt.1, hapt.2 fun i h => by cases h⟩

end House

end Order

end DeliTalk
