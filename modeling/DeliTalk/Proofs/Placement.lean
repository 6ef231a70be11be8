import DeliTalk.Proofs.Motives
import DeliTalk.Proofs.Reversal
import Mathlib.Data.List.Lattice

/-!
# Where what was missing is put

A wish that never made it is to go next to the nearest one that is there. Which wishes are there is
told by counting names from the bottom, so what is there below a wish is the names desired below it
as far as the sandwich has them. Where it goes is told by the first ingredient of the neighbour's
name. The two views agree if no name is desired twice; if some are, what lies below the place has to
be looked at.

* `Wish.there_take`: what is there below a wish.
* `Order.insertIdx_sublist`: a place above just what is there below the wish is right.
* `Order.take_place`: what lies below the place, if the neighbour is there once.
* `Order.ends_pick_mistake`: who asks for the first wish that was passed by.
* `Order.pick_adds_in_place`: when a correction goes to its place.
-/

namespace DeliTalk

open Act

/-! ## 1. What is there -/

namespace Wish

/-- The names of the wishes that are there. -/
def there (ws : List Wish) : List String := (ws.filter (·.present)).map (·.ingredient.name)

theorem there_zipWith (suppressed : Ingredient → Bool) :
    ∀ (is : List Ingredient) (available : List String) (k : Nat),
      there ((is.zipWith (fun i present => (⟨i, present, suppressed i⟩ : Wish))
        (presence (is.map (·.name)) available)).take k) =
          ((is.map (·.name)).take k).bagInter available
  | [], available, k => by simp [there]
  | i :: is, available, 0 => by simp [there]
  | i :: is, available, k + 1 => by
    rw [List.map_cons, presence]
    split
    · rename_i h
      rw [List.take_succ_cons, List.cons_bagInter_of_mem _ h,
        ← there_zipWith suppressed is (available.erase i.name) k]
      rfl
    · rename_i h
      rw [List.take_succ_cons, List.cons_bagInter_of_not_mem _ h,
        ← there_zipWith suppressed is available k]
      rfl

section

variable {suppressed : Ingredient → Bool} {desired result : Sandwich} {ws : List Wish}
  (hws : ws = listOf suppressed desired result) {k : Nat} {w : Wish}

include hws

/-- **What is there** below a wish: the names desired below it, as far as the sandwich has them. -/
theorem there_take (k : Nat) :
    there (ws.take k) = (desired.names.take k).bagInter result.names := by
  subst hws
  exact there_zipWith suppressed desired.ingredients result.names k

/-- The first open wish is the first one of its kind that is not there, so below it there is desired
just as much of its kind as there is. -/
theorem count_below (byName : ∀ i j : Ingredient, i.name = j.name → suppressed i = suppressed j)
    {next : Nat} (hfirst : (ws.take next).findIdx? (·.isOpen) = some k) (hw : ws[k]? = some w) :
    (desired.names.take k).count w.ingredient.name = result.count w.ingredient.name := by
  have hopen := isOpen_of_findIdx? (List.take_prefix next ws) hfirst hw
  have hpassed : ∀ {j : Nat} {v : Wish}, ws[j]? = some v → v.suppressed = suppressed v.ingredient :=
    fun h => (getElem?_listOf (hws ▸ h)).2
  have hthere : ∀ v ∈ ws.take k, v.ingredient.name = w.ingredient.name → v.present = true := by
    intro v hv hname
    obtain ⟨hk, -, hbefore⟩ := List.findIdx?_eq_some_iff_getElem.mp hfirst
    obtain ⟨j, hj, rfl⟩ := List.mem_iff_getElem.mp hv
    have hlt : j < k ∧ j < ws.length := by simpa using hj
    have hclosed := hbefore j hlt.1
    rw [List.getElem_take] at hclosed hname ⊢
    have heeded : ws[j].suppressed = false := by
      rw [hpassed (List.getElem?_eq_getElem hlt.2), byName _ _ hname, ← hpassed hw]
      exact not_suppressed_of_isOpen hopen
    simpa [isOpen, heeded] using hclosed
  have habsent := absent_of_isOpen hopen
  rw [present_eq hws hw, decide_eq_false_iff_not, ← count_take hws] at habsent
  refine Nat.le_antisymm ?_ (Nat.le_of_not_lt habsent)
  calc (desired.names.take k).count w.ingredient.name
      = (ws.take k).countP fun v => v.ingredient.name == w.ingredient.name := count_take hws k _
    _ = ((ws.take k).filter (·.present)).countP
          fun v => v.ingredient.name == w.ingredient.name := by
        rw [List.countP_filter]
        refine List.countP_congr fun v hv => ?_
        simpa using hthere v hv
    _ = ((desired.names.take k).bagInter result.names).count w.ingredient.name := by
        rw [← there_take hws, there, List.count, List.countP_map]
        rfl
    _ ≤ result.count w.ingredient.name := by
        rw [List.count_bagInter]
        exact Nat.min_le_right _ _

/-- What is there is there below a wish that is not, or above it. -/
theorem there_split (hw : ws[k]? = some w) (habsent : w.present = false) :
    desired.names.bagInter result.names = there (ws.take k) ++ there (ws.drop (k + 1)) := by
  obtain ⟨hlt, rfl⟩ := List.getElem?_eq_some_iff.mp hw
  have hlength : desired.names.length = ws.length := by
    rw [← map_listOf hws, List.length_map]
  have hall := there_take hws ws.length
  rw [List.take_length, ← hlength, List.take_length] at hall
  have habove : there (ws[k] :: ws.drop (k + 1)) = there (ws.drop (k + 1)) := by
    unfold there
    rw [List.filter_cons_of_neg (by simp [habsent])]
  rw [← hall, ← habove, there, there, there, ← List.map_append, ← List.filter_append,
    List.cons_getElem_drop_succ, List.take_append_drop]

end

end Wish

namespace Order

/-! ## 2. The right place -/

section Lists

variable {D R : List String} {slot place : Nat} {x : String}

/-- **A place above just what is there** of what is desired below is right for something of which
there is no more than is desired below. -/
theorem insertIdx_sublist (hsub : R.Sublist D) (hslot : D[slot]? = some x)
    (hspent : R.count x ≤ (D.take slot).count x) (hplace : place ≤ R.length)
    (hbelow : R.take place = (D.take slot).bagInter R) : (R.insertIdx place x).Sublist D := by
  have hD : D.take slot ++ x :: D.drop (slot + 1) = D := by
    obtain ⟨hlt, rfl⟩ := List.getElem?_eq_some_iff.mp hslot
    rw [List.cons_getElem_drop_succ, List.take_append_drop]
  rw [← hD] at hsub
  obtain ⟨front, back, hsplit, hfront, hback⟩ := List.sublist_append_iff.mp hsub
  -- the part that comes from below the slot is no more than what is there of it
  have hprefix : front <+: R.take place := by
    refine List.prefix_of_prefix_length_le ⟨back, hsplit.symm⟩ (List.take_prefix place R) ?_
    rw [hbelow]
    refine (List.subperm_iff_count.mpr fun name => ?_).length_le
    rw [List.count_bagInter]
    refine Nat.le_min.mpr ⟨hfront.count_le name, ?_⟩
    rw [hsplit]
    exact (List.sublist_append_left front back).count_le name
  obtain ⟨middle, hmiddle⟩ := hprefix
  have hrest : back = middle ++ R.drop place := by
    have hwhole : front ++ back = front ++ (middle ++ R.drop place) := by
      rw [← hsplit, ← List.append_assoc, hmiddle, List.take_append_drop]
    exact List.append_cancel_left hwhole
  -- and none of what is put in is above the place
  have hnone : x ∉ R.drop place := by
    have hcount := congrArg (List.count x) (List.take_append_drop place R)
    rw [List.count_append, hbelow, List.count_bagInter] at hcount
    exact List.count_eq_zero.mp (by omega)
  have habove : (R.drop place).Sublist (D.drop (slot + 1)) := by
    have hsub : (R.drop place).Sublist (x :: D.drop (slot + 1)) :=
      (hrest ▸ List.sublist_append_right middle _).trans hback
    rcases List.sublist_cons_iff.mp hsub with h | ⟨r, hr, -⟩
    · exact h
    · exact absurd (hr ▸ List.mem_cons_self) hnone
  rw [Operation.insertIdx_eq_append hplace, ← hD, hbelow]
  exact List.bagInter_sublist_left.append (habove.cons_cons x)

/-- All of a part of a list without repetitions is there, in the same order. -/
theorem bagInter_eq_of_nodup (hsub : R.Sublist D) (hD : D.Nodup) : D.bagInter R = R := by
  refine (hD.perm_iff_eq_of_sublist List.bagInter_sublist_left hsub).mp ?_
  refine List.perm_iff_count.mpr fun name => ?_
  rw [List.count_bagInter]
  exact Nat.min_eq_right (hsub.count_le name)

end Lists

section Place

variable {suppressed : Ingredient → Bool} {desired result : Sandwich} {ws : List Wish}

/-- Where the first ingredient of a name is. -/
theorem anchored_eq {i : Ingredient} {below above : List String}
    (hnames : result.names = below ++ i.name :: above) (hfirst : i.name ∉ below) :
    result.ingredients.findIdx? (·.same i.leaf) = some below.length := by
  have hmap : result.ingredients.findIdx? (·.same i.leaf) =
      result.names.findIdx? (· == i.name) := by
    rw [Sandwich.names, List.findIdx?_map]
    rfl
  have hnone : below.findIdx? (· == i.name) = none := by
    rw [List.findIdx?_eq_none_iff]
    intro name hname
    exact beq_eq_false_iff_ne.mpr fun heq => hfirst (heq ▸ hname)
  rw [hmap, hnames, List.findIdx?_append, hnone, List.findIdx?_cons]
  simp

/-- Which neighbour a wish goes next to: the last one there below it, or else the first one there
above it. -/
theorem placement_cases (ws : List Wish) (k : Nat) :
    (∃ below i, Wish.there (ws.take k) = below ++ [i.name] ∧ placement ws k = .after i) ∨
      (∃ above i, Wish.there (ws.take k) = [] ∧
        Wish.there (ws.drop (k + 1)) = i.name :: above ∧ placement ws k = .before i) ∨
      placement ws k = .top := by
  unfold placement
  split
  · rename_i w hw
    rw [← List.getLast?_filter, List.getLast?_eq_some_iff] at hw
    obtain ⟨vs, hvs⟩ := hw
    refine Or.inl ⟨vs.map (·.ingredient.name), w.ingredient, ?_, rfl⟩
    rw [Wish.there, hvs, List.map_append, List.map_singleton]
  · rename_i w hbelow hw
    rw [← List.getLast?_filter, List.getLast?_eq_none_iff] at hbelow
    rw [← List.head?_filter, List.head?_eq_some_iff] at hw
    obtain ⟨vs, hvs⟩ := hw
    refine Or.inr (Or.inl ⟨vs.map (·.ingredient.name), w.ingredient, ?_, ?_, rfl⟩)
    · rw [Wish.there, hbelow, List.map_nil]
    · rw [Wish.there, hvs, List.map_cons]
  · exact Or.inr (Or.inr rfl)

/-- **What lies below the place** is what is there below the wish, if what is there reads as the
sandwich does and its neighbour is on it once. -/
theorem take_place (hws : ws = Wish.listOf suppressed desired result) {k place : Nat} {w : Wish}
    (hw : ws[k]? = some w) (habsent : w.present = false)
    (hreads : desired.names.bagInter result.names = result.names)
    (honce : ∀ a ∈ (placement ws k).anchor, result.count a.name ≤ 1)
    (hplaced : (placement ws k).position ≠ .top)
    (hplace : Operation.insertionPoint (placement ws k) result.ingredients = some place) :
    result.names.take place = (desired.names.take k).bagInter result.names := by
  have hnames := Wish.there_split hws hw habsent
  rw [hreads] at hnames
  rw [← Wish.there_take hws]
  rcases placement_cases ws k with ⟨below, i, hbelow, h⟩ | ⟨above, i, hbelow, habove, h⟩ | h
  · have hlast : result.names = below ++ i.name :: Wish.there (ws.drop (k + 1)) := by
      rw [hnames, hbelow, List.append_assoc, List.singleton_append]
    have hfirst : i.name ∉ below := by
      have hcount : result.count i.name ≤ 1 := honce i.leaf (by rw [h]; rfl)
      rw [Sandwich.count, hlast, List.count_append, List.count_cons_self] at hcount
      exact List.count_eq_zero.mp (by omega)
    have hpoint : Operation.insertionPoint (.after i) result.ingredients =
        some (below.length + 1) := by
      show (result.ingredients.findIdx? (·.same i.leaf)).map (· + 1) = _
      rw [anchored_eq hlast hfirst]
      rfl
    rw [h, hpoint] at hplace
    cases hplace
    have hlength : below.length + 1 = (Wish.there (ws.take k)).length := by
      rw [hbelow, List.length_append, List.length_singleton]
    rw [hnames, hlength, List.take_left]
  · have hhead : result.names = [] ++ i.name :: above := by
      rw [hnames, hbelow, habove]
    have hpoint : Operation.insertionPoint (.before i) result.ingredients = some 0 :=
      anchored_eq hhead List.not_mem_nil
    rw [h, hpoint] at hplace
    cases hplace
    rw [hbelow, List.take_zero]
  · rw [h] at hplaced
    exact absurd rfl hplaced

end Place

/-! ## 3. Corrections -/

/-- The bold that know their places ask for the first open wish below the next one, if there is
nothing too much. -/
theorem yields_askEarlier_placed {p : Personality ℝ} {ws : List Wish} {next k : Nat} {w : Wish}
    (hfirst : (ws.take next).findIdx? (·.isOpen) = some k) (hw : ws[k]? = some w)
    (hbold : p.shyness = 0) (hplaces : 1 ≤ p.language.adposition) :
    Yields (askEarlier p ws next) (· = some (.add w.ingredient (placement ws k))) := by
  unfold askEarlier
  rw [hfirst]
  simp only [hw]
  refine yields_bind (yields_rollShy_bold hbold) fun shy hshy => ?_
  subst hshy
  refine yields_bind (yields_roll_one hplaces) fun placed hplaced => ?_
  subst hplaced
  exact yields_pure rfl

/-- **Who is bold and healthy, forgets nothing and knows the places** asks for the first wish that
was passed by, next to its neighbour, whatever the draws are. -/
theorem ends_pick_mistake {t : Table ℝ} (result : Sandwich) {ws : List Wish} {k : Nat} {w : Wish}
    (hc : t.mind.chance.Proper) (hmissing : isMissing t.order.desired result = true)
    (hextra : firstExtra? t.order.desired result = none)
    (hws : ws = Wish.listOf (fun _ => false) t.order.desired result)
    (hfirst : (ws.take (Wish.target ws)).findIdx? (·.isOpen) = some k) (hw : ws[k]? = some w)
    (hhealthy : t.mind.personality.allergies = []) (hkeen : t.mind.personality.forgetfulness = 0)
    (hbold : t.mind.personality.shyness = 0)
    (hplaces : 1 ≤ t.mind.personality.language.adposition) :
    Ends (pick result) t (fun a _ => a = some (.add w.ingredient (placement ws k))) never := by
  refine ends_pick_healthy yields_roll_zero hhealthy hkeen hc hmissing hextra hws fun c hc' => ?_
  unfold firstOf
  rw [ends_bind]
  refine (Table.ends_lucky (yields_askEarlier_placed hfirst hw hbold hplaces) hc').imp
    fun a t' h => ?_
  rw [h.1]
  rfl

/-- **A correction** of a sandwich that has what is wanted in the right order is for the first wish
of its kind that is not there, and puts it in at some place. The order stays right if what lies
below the place is what is there below the wish. That is so if what is there reads as the sandwich
does and its neighbour is on it once, in particular if no name is wanted twice. -/
theorem pick_adds_in_place {R : Type} [Scalar R] {result : Sandwich} {t t' : Table R}
    {i : Ingredient} {r : Relative}
    (hsub : result.names.Sublist t.order.desired.names)
    (h : (pick result).perform t = (.ok (some (.add i r)), t')) (hplaced : r.position ≠ .top) :
    t'.order = t.order ∧ ∃ slot place,
      t.order.desired.ingredients[slot]? = some i ∧
      (t.order.desired.names.take slot).count i.name = result.count i.name ∧
      Operation.insertionPoint r result.ingredients = some place ∧
      ((Operation.add i r).imagine R result).names = result.names.insertIdx place i.name ∧
      (result.names.take place = (t.order.desired.names.take slot).bagInter result.names ∨
        (t.order.desired.names.bagInter result.names = result.names ∧
          ∀ a ∈ r.anchor, result.count a.name ≤ 1) ∨
        t.order.desired.names.Nodup →
          ((Operation.add i r).imagine R result).names.Sublist t.order.desired.names) := by
  have hmotive := (pick_motive h).2
  generalize t'.order = o' at hmotive
  cases hmotive with
  | wish => exact absurd rfl hplaced
  | @mistake suppressed ws next slot w byName hws hfirst hw =>
    have habsent := Wish.absent_of_isOpen
      (Wish.isOpen_of_findIdx? (List.take_prefix next ws) hfirst hw)
    have hcount := Wish.count_below hws byName hfirst hw
    have hslot := (Wish.getElem?_listOf (hws ▸ hw)).1
    obtain ⟨place, hplace, hle, hput⟩ :=
      imagine_add (R := R) w.ingredient (Wish.offers_placement hws slot)
    have himagine : ((Operation.add w.ingredient (placement ws slot)).imagine R result).names =
        result.names.insertIdx place w.ingredient.name := by
      rw [hput, Sandwich.names, List.map_insertIdx]
      rfl
    refine ⟨rfl, slot, place, hslot, hcount, hplace, himagine, fun hright => ?_⟩
    have hbelow : result.names.take place =
        (t.order.desired.names.take slot).bagInter result.names := by
      rcases hright with hbelow | ⟨hreads, honce⟩ | hnodup
      · exact hbelow
      · exact take_place hws hw habsent hreads honce hplaced hplace
      · exact take_place hws hw habsent (bagInter_eq_of_nodup hsub hnodup)
          (fun a _ => List.nodup_iff_count_le_one.mp (hsub.nodup hnodup) a.name) hplaced hplace
    have hname : t.order.desired.names[slot]? = some w.ingredient.name := by
      rw [Sandwich.names, List.getElem?_map, hslot]
      rfl
    rw [himagine]
    refine insertIdx_sublist hsub hname hcount.ge ?_ hbelow
    rwa [Sandwich.names, List.length_map]

namespace House

/-- A bread, a tomato and a lid. -/
def wantedPlain : Sandwich := { ingredients := [bread, tomato, lid] }

/-- The same without the tomato. -/
def gotPlain : Sandwich := { ingredients := [bread, lid] }

/-- Two breads, a tomato and a lid. -/
def wantedDouble : Sandwich := { ingredients := [bread, bread, tomato, lid] }

/-- The same without the tomato. -/
def gotDouble : Sandwich := { ingredients := [bread, bread, lid] }

/-- The customer that wants a sandwich, at its table. -/
noncomputable def tableFor (desired : Sandwich) : Table ℝ :=
  ⟨{ desired := desired }, customer, .scripted (fun _ => 0) 0⟩

/-- Without a tomato it asks for one after the bread. That is where it belongs on one bread; on two
it comes between them. -/
theorem adds_tomato :
    ((∃ t, (pick gotPlain).perform (tableFor wantedPlain) =
        (.ok (some (.add tomato (.after bread))), t)) ∧
      gotPlain.names.Sublist wantedPlain.names ∧
      ((Operation.add tomato (.after bread)).imagine ℝ gotPlain).names.Sublist
        wantedPlain.names) ∧
    (∃ t, (pick gotDouble).perform (tableFor wantedDouble) =
        (.ok (some (.add tomato (.after bread))), t)) ∧
      gotDouble.names.Sublist wantedDouble.names ∧
      ¬ ((Operation.add tomato (.after bread)).imagine ℝ gotDouble).names.Sublist
        wantedDouble.names := by
  have hproper : ∀ d, (tableFor d).mind.chance.Proper := fun _ _ => ⟨le_refl 0, zero_lt_one⟩
  obtain ⟨_, t₁, hplain, rfl⟩ := (ends_pick_mistake (t := tableFor wantedPlain) gotPlain
    (k := 1) (w := ⟨tomato, false, false⟩) (hproper _) rfl rfl rfl rfl rfl rfl rfl rfl
    (le_refl 1)).exists
  obtain ⟨_, t₂, hdouble, rfl⟩ := (ends_pick_mistake (t := tableFor wantedDouble) gotDouble
    (k := 2) (w := ⟨tomato, false, false⟩) (hproper _) rfl rfl rfl rfl rfl rfl rfl rfl
    (le_refl 1)).exists
  have hsub : gotPlain.names.Sublist wantedPlain.names := by decide
  obtain ⟨-, slot, place, -, -, -, -, hright⟩ := pick_adds_in_place hsub hplain nofun
  have hbetween : ((Operation.add tomato (.after bread)).imagine ℝ gotDouble).names =
      [bread.name, tomato.name, bread.name, lid.name] := rfl
  have hnodup : wantedPlain.names.Nodup := by decide
  refine ⟨⟨⟨t₁, hplain⟩, hsub, hright (Or.inr (Or.inr hnodup))⟩, ⟨t₂, hdouble⟩, by decide, ?_⟩
  rw [hbetween]
  decide

end House

end Order

end DeliTalk
