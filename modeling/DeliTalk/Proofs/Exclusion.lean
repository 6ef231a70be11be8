import DeliTalk.Proofs.Dreams

/-!
# What stays out of a dream

Nothing excluded gets between the halves of a bread, neither as something that has to be in nor by
being drawn. The bread itself is chosen from all there are, whatever is excluded. So an excluded
ingredient can get onto a sandwich exactly if there is a bread with an excluded half; that of what a
machine cannot stand nothing is in its dreams is decided by the breads on the menu alone.

* `Taxonomy.Spared`, `Taxonomy.returns_spared`: nothing excluded between the halves of a bread.
* `Chance.Even`, `lands_choose_even`: a source that leads to a given choice.
* `Taxonomy.Avoids`, `Taxonomy.avoids_iff`: when nothing excluded is ever on a sandwich.
* `Order.dreams_avoid`: random sandwiches and dreams.
-/

namespace DeliTalk

open Act

/-! ## 1. Between the halves -/

namespace Taxonomy

/-- Whether nothing excluded is on a sandwich but perhaps its bread. -/
def Spared (t : Taxonomy) (banned : List Ingredient) (s : Sandwich) : Prop :=
  ∃ b ∈ t.breads, ∃ middle, s.ingredients = b.1 :: middle ++ [b.2] ∧
    ∀ i ∈ middle, isBanned banned i = false

/-- Nothing excluded has to be in. -/
theorem isBanned_of_mem_requiredFillings {required banned : List Ingredient} {fillings : Int}
    {i : Ingredient} (h : i ∈ requiredFillings required banned fillings) :
    isBanned banned i = false := by
  have hwanted : i ∈ wanted banned required := by
    unfold requiredFillings front at h
    split at h <;> exact List.mem_of_mem_take h
  obtain ⟨j, hj, rfl⟩ := List.mem_map.mp hwanted
  have hallowed := (List.mem_filter.mp hj).2
  rw [Bool.and_eq_true, Bool.not_eq_true'] at hallowed
  -- whether a leaf is excluded is a matter of its name
  exact hallowed.2

variable {R : Type} [Scalar R]

/-- **Nothing excluded gets between the halves of a bread**, whatever the source is. -/
theorem returns_spared (t : Taxonomy) (fillings : Int) (banned required : List Ingredient) :
    Returns (t.randomSandwich fillings banned required : Luck R Sandwich) (t.Spared banned) := by
  refine (t.returns_randomSandwich fillings banned required).imp fun s h => ?_
  obtain ⟨b, hb, chosen, middle, hs, hmiddle, ⟨⟨drawn, rfl, hdrawn⟩, -⟩, -⟩ := h
  refine ⟨b, hb, middle, hs, fun i hi => ?_⟩
  rcases List.mem_append.mp (hmiddle.mem_iff.mp hi) with hi | hi
  · exact isBanned_of_mem_requiredFillings hi
  · exact (mem_pool.mp (hdrawn i hi)).2

end Taxonomy

/-- The same for the dreams of a machine and what it cannot stand. -/
theorem Order.returns_dream_spared {R : Type} [Scalar R] (t : Taxonomy) (p : Personality R)
    (least most : Int) :
    Returns (dream t p least most) (t.Spared (p.allergies.map (·.ingredient))) :=
  returns_after fun fillings => returns_after fun planned => t.returns_spared fillings _ planned

/-! ## 2. A bread of one's choice -/

/-- Whether every draw of a source is the same. -/
def Chance.Even (x : ℝ) (c : Chance ℝ) : Prop := ∃ used, c = .scripted (fun _ => x) used

theorem Chance.Even.proper {x : ℝ} (hx : 0 ≤ x ∧ x < 1) {c : Chance ℝ} (h : c.Even x) :
    c.Proper := by
  obtain ⟨used, rfl⟩ := h
  exact fun _ => hx

theorem Chance.lasting_even {x : ℝ} (hx : 0 ≤ x ∧ x < 1) : Lasting (Even x) where
  fair h := (h.proper hx).fair
  draw h := by
    obtain ⟨used, rfl⟩ := h
    exact ⟨used + 1, rfl⟩
  below h bound := by
    obtain ⟨used, rfl⟩ := h
    exact ⟨used + 1, rfl⟩

/-- A draw that leads to one of so many places: the least of its share. -/
noncomputable def share (k n : Nat) : ℝ := k * (n : ℝ)⁻¹

section Share

variable {k n : Nat} (h : k < n)

include h

theorem share_mul : share k n * n = k := by
  have hn : (n : ℝ) ≠ 0 := Nat.cast_ne_zero.mpr (by omega)
  rw [share, inv_mul_cancel_right₀ hn]

theorem share_bounds : 0 ≤ share k n ∧ share k n < 1 := by
  have hn : (0 : ℝ) < n := Nat.cast_pos.mpr (by omega)
  refine ⟨mul_nonneg k.cast_nonneg (inv_nonneg.mpr hn.le), (mul_inv_lt_iff₀ hn).mpr ?_⟩
  rw [one_mul]
  exact Nat.cast_lt.mpr h

theorem lands_drawBelow_even : Lands (Chance.Even (share k n)) (drawBelow n) (· = (k : Int)) := by
  rintro c ⟨used, rfl⟩
  have hfloor : Scalar.floor (share k n * Scalar.ofNat n : ℝ) = (k : Int) := by
    rw [Scalar.ofNat_real, share_mul h, Scalar.floor_real, Int.floor_natCast]
  have hperform : (drawBelow n).perform (.scripted (fun _ => share k n) used) =
      (.ok (k : Int), .scripted (fun _ => share k n) (used + 1)) := by
    rw [← hfloor]
    rfl
  exact ends_of_perform hperform ⟨⟨used + 1, rfl⟩, rfl⟩

end Share

/-- **Any one of several values** is chosen on some source. -/
theorem lands_choose_even {α : Type} {xs : List α} {k : Nat} (h : k < xs.length) :
    Lands (Chance.Even (share k xs.length)) (choose xs) (· = xs[k]) := by
  have hne : ¬ xs.isEmpty = true := by
    rw [List.isEmpty_iff_length_eq_zero]
    omega
  unfold choose
  rw [if_neg hne]
  refine lands_bind (lands_drawBelow_even h) fun n hn => ?_
  subst hn
  exact lands_atPlace h

namespace Taxonomy

/-- **Any bread** can be that of a random sandwich. -/
theorem exists_randomSandwich_bread {t : Taxonomy} {b : Bread} (hb : b ∈ t.breads) :
    ∃ kind : Chance ℝ → Prop, Chance.Lasting kind ∧ (∃ c, kind c ∧ c.Proper) ∧
      ∀ fillings banned required, Lands kind (t.randomSandwich fillings banned required)
        fun s => b.1 ∈ s.ingredients ∧ b.2 ∈ s.ingredients := by
  obtain ⟨k, hk, rfl⟩ := List.getElem_of_mem hb
  have hkind := Chance.lasting_even (share_bounds hk)
  have heven : (.scripted (fun _ => share k t.breads.length) 0 : Chance ℝ).Even
      (share k t.breads.length) := ⟨0, rfl⟩
  refine ⟨_, hkind, ⟨_, heven, heven.proper (share_bounds hk)⟩, fun fillings banned required => ?_⟩
  refine (t.lands_randomSandwich_bread hkind fillings banned required
    (lands_choose_even hk)).imp fun s h => ?_
  obtain ⟨_, rfl, hhalves⟩ := h
  exact hhalves

/-! ## 3. What is never on a sandwich -/

/-- Whether nothing excluded is ever on a sandwich that comes about, whatever the draws are. -/
def Avoids (banned : List Ingredient) (x : Luck ℝ Sandwich) : Prop :=
  ∀ (c c' : Chance ℝ) (s : Sandwich), c.Proper → x.perform c = (.ok s, c') →
    ∀ i ∈ s.ingredients, isBanned banned i = false

/-- Whether no bread of a menu has an excluded half. -/
def HasBreads (t : Taxonomy) (banned : List Ingredient) : Prop :=
  ∀ b ∈ t.breads, isBanned banned b.1 = false ∧ isBanned banned b.2 = false

/-- Where only bread can be excluded and every bread can come about, bread is what matters. -/
theorem avoids_iff {t : Taxonomy} {banned : List Ingredient} {x : Luck ℝ Sandwich}
    (hspared : Returns x (t.Spared banned))
    (hbread : ∀ b ∈ t.breads, ∃ kind : Chance ℝ → Prop, (∃ c, kind c ∧ c.Proper) ∧
      Lands kind x fun s => b.1 ∈ s.ingredients ∧ b.2 ∈ s.ingredients) :
    Avoids banned x ↔ t.HasBreads banned := by
  constructor
  · intro havoids b hb
    obtain ⟨kind, ⟨c, hc, hproper⟩, hlands⟩ := hbread b hb
    obtain ⟨s, c', hperform, -, hbottom, htop⟩ := (hlands c hc).exists
    exact ⟨havoids c c' s hproper hperform _ hbottom, havoids c c' s hproper hperform _ htop⟩
  · intro hbreads c c' s _ hperform i hi
    obtain ⟨b, hb, middle, hs, hmiddle⟩ := hspared.of_perform hperform
    rw [hs, List.mem_append, List.mem_cons, List.mem_singleton] at hi
    rcases hi with (rfl | hi) | rfl
    · exact (hbreads b hb).1
    · exact hmiddle i hi
    · exact (hbreads b hb).2

end Taxonomy

namespace Order

open Taxonomy

/-- **Excluded ingredients stay out of dreams, bread apart.** Whatever the source and the scalars
are, nothing excluded gets between the halves of the bread of a random sandwich, and nothing a
machine cannot stand gets there in its dreams. With proper draws no excluded ingredient is ever on a
random sandwich, bread included, exactly if no bread of the menu has an excluded half; and the same
is true of dreams and what a machine cannot stand. -/
theorem dreams_avoid (t : Taxonomy) :
    (∀ (R : Type) [Scalar R] (c c' : Chance R) (s : Sandwich),
      (∀ fillings banned required,
        (t.randomSandwich fillings banned required).perform c = (.ok s, c') → t.Spared banned s) ∧
      ∀ p least most, (dream t p least most).perform c = (.ok s, c') →
        t.Spared (p.allergies.map (·.ingredient)) s) ∧
    (∀ fillings banned required,
      Avoids banned (t.randomSandwich fillings banned required) ↔ t.HasBreads banned) ∧
    ∀ p least most, Avoids (p.allergies.map (·.ingredient)) (dream t p least most) ↔
      t.HasBreads (p.allergies.map (·.ingredient)) := by
  refine ⟨fun R _ c c' s => ⟨fun fillings banned required h => ?_, fun p least most h => ?_⟩,
    fun fillings banned required => ?_, fun p least most => ?_⟩
  · exact (t.returns_spared fillings banned required).of_perform h
  · exact (returns_dream_spared t p least most).of_perform h
  · refine avoids_iff (t.returns_spared fillings banned required) fun b hb => ?_
    obtain ⟨kind, -, hproper, hlands⟩ := exists_randomSandwich_bread hb
    exact ⟨kind, hproper, hlands fillings banned required⟩
  · refine avoids_iff (returns_dream_spared t p least most) fun b hb => ?_
    obtain ⟨kind, hkind, hproper, hlands⟩ := exists_randomSandwich_bread hb
    exact ⟨kind, hproper, lands_dream hkind rfl fun required => hlands _ _ required⟩

namespace House

/-- The meats. -/
def meat : Ingredient :=
  Taxonomy.House.category "meat" "mo"
    [Taxonomy.House.item "ham" "ha", Taxonomy.House.item "turkey" "tu",
      Taxonomy.House.item "bacon" "pa", Taxonomy.House.item "salami" "sa"]

/-- White bread. -/
def white : Ingredient :=
  Taxonomy.House.category "white" "ke"
    [Taxonomy.House.item "white-bread-bottom" "li", Taxonomy.House.item "white-bread-top" "lu"]

/-- Meat can be kept out, white bread cannot. -/
theorem avoids_meat : Avoids [meat] (house.randomSandwich 2 [meat] []) ∧
    ¬ Avoids [white] (house.randomSandwich 2 [white] []) := by
  have hexcluded := (dreams_avoid house).2.1
  refine ⟨(hexcluded 2 [meat] []).mpr ?_, fun h => ?_⟩
  · show ∀ b ∈ Taxonomy.House.breads, isBanned [meat] b.1 = false ∧ isBanned [meat] b.2 = false
    decide
  · have hbread := (hexcluded 2 [white] []).mp h _ List.mem_cons_self
    exact absurd hbread.1 (by decide)

end House

end Order

end DeliTalk
