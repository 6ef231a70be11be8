import DeliTalk.Proofs.Luck
import DeliTalk.Taxonomy.House

/-!
# What a dreamt sandwich is made of

Between the two halves of a bread lie the ingredients that have to be in, as many as there is room
for, and what is drawn from the fillings that are allowed, all of it in random order. A filling
drawn again may be turned down, and the number of draws is bounded, so there may be less between the
breads than was asked for; but the first draw is never turned down.

* `Bread.IsOf`, `Taxonomy.isOf_of_mem`: the breads of a tree.
* `Taxonomy.Filled`, `Taxonomy.returns_fill`: what drawing adds to what is there.
* `Taxonomy.returns_randomSandwich`: what a random sandwich is made of, whatever the source is.
* `Taxonomy.Layers`, `Taxonomy.randomSandwich_layers`: every fair source gives a sandwich, and it
  has the promised shape.
-/

namespace DeliTalk

open Act

/-- Of two lists that correspond, the second has nothing that does not come from the first. -/
theorem exists_mem_of_forall₂ {α β : Type} {r : α → β → Prop} {b : β} :
    ∀ {xs : List α} {ys : List β}, List.Forall₂ r xs ys → b ∈ ys → ∃ a ∈ xs, r a b
  | [], [], .nil, hb => by cases hb
  | a :: _, _ :: _, .cons hab h, hb => by
    rcases List.mem_cons.mp hb with rfl | hb
    · exact ⟨a, List.mem_cons_self, hab⟩
    · obtain ⟨c, hc, hcb⟩ := exists_mem_of_forall₂ h hb
      exact ⟨c, List.mem_cons_of_mem a hc, hcb⟩

/-! ## 1. Breads -/

/-- Whether a bread is one of a tree: the first two children, bottom and top, of something in the
category of breads, as childless copies. -/
def Bread.IsOf (b : Bread) (root : Ingredient) : Prop :=
  ∃ base kind bottom top more, root.kids.find? (·.name == baseName) = some base ∧
    kind ∈ base.kids ∧ kind.kids = bottom :: top :: more ∧ b = (bottom.leaf, top.leaf)

namespace Taxonomy

/-- The breads of a menu are breads of its tree. -/
theorem isOf_of_mem (t : Taxonomy) {b : Bread} (hb : b ∈ t.breads) : b.IsOf t.root := by
  obtain ⟨base, hbase, -, hbreads⟩ := t.exists_base_breads
  obtain ⟨kind, hkind, hbread⟩ := exists_mem_of_forall₂ hbreads hb
  obtain ⟨bottom, top, more, hkids, rfl⟩ := ofKind_ok hbread
  exact ⟨base, kind, bottom, top, more, hbase, hkind, hkids, rfl⟩

/-! ## 2. Fillings -/

/-- What there is after drawing from a pool: what was there before and some of the pool, and no more
than there should be unless there was before. -/
structure Filled (pool : List Ingredient) (fillings : Int) (before after : List Ingredient) :
    Prop where
  drawn : ∃ drawn, after = before ++ drawn ∧ ∀ i ∈ drawn, i ∈ pool
  length_le : (before.length : Int) ≤ fillings → (after.length : Int) ≤ fillings

namespace Filled

variable {pool before after : List Ingredient} {fillings : Int} {candidate : Ingredient}

theorem refl (pool : List Ingredient) (fillings : Int) (chosen : List Ingredient) :
    Filled pool fillings chosen chosen := ⟨⟨[], by simp, nofun⟩, id⟩

/-- One more as long as there is room. -/
theorem cons (hmem : candidate ∈ pool) (hroom : (before.length : Int) < fillings)
    (h : Filled pool fillings (before ++ [candidate]) after) :
    Filled pool fillings before after := by
  obtain ⟨⟨drawn, rfl, hdrawn⟩, hlength⟩ := h
  refine ⟨⟨candidate :: drawn, by simp, List.forall_mem_cons.mpr ⟨hmem, hdrawn⟩⟩, fun _ => ?_⟩
  exact hlength (by rw [List.length_append, List.length_singleton]; omega)

/-- What was there stays there. -/
theorem ne_nil (h : Filled pool fillings before after) (hbefore : before ≠ []) : after ≠ [] := by
  obtain ⟨⟨drawn, rfl, -⟩, -⟩ := h
  exact List.append_ne_nil_of_left_ne_nil hbefore drawn

end Filled

section Fill

variable {R : Type} [Scalar R]

/-- **Drawing fillings**, whatever is drawn. -/
theorem returns_fill (pool : List Ingredient) (fillings : Int) :
    ∀ (attempts : Nat) (chosen : List Ingredient),
      Returns (fill pool fillings attempts chosen : Luck R (List Ingredient))
        (Filled pool fillings chosen)
  | 0, chosen => returns_pure (.refl pool fillings chosen)
  | attempts + 1, chosen => by
    have hfill := returns_fill pool fillings attempts
    unfold fill
    split
    · exact returns_pure (.refl pool fillings chosen)
    · rename_i hgoing
      have hroom : (chosen.length : Int) < fillings := not_le.mp fun hle => hgoing (Or.inr hle)
      refine returns_bind (returns_choose pool) fun candidate hmem => ?_
      have hmore := (hfill (chosen ++ [candidate])).imp fun _ h => h.cons hmem hroom
      split
      · refine returns_after fun survives => ?_
        split
        · exact hmore
        · exact hfill chosen
      · exact hmore

/-- The first draw is never turned down. -/
theorem returns_fill_ne_nil {pool : List Ingredient} (hpool : pool ≠ []) {fillings : Int}
    (hfillings : 0 < fillings) {attempts : Nat} (hattempts : attempts ≠ 0)
    (chosen : List Ingredient) :
    Returns (fill pool fillings attempts chosen : Luck R (List Ingredient)) fun ys => ys ≠ [] := by
  cases chosen with
  | cons i rest =>
    exact (returns_fill pool fillings attempts _).imp fun _ h => h.ne_nil (List.cons_ne_nil i rest)
  | nil =>
    obtain ⟨attempts, rfl⟩ := Nat.exists_eq_succ_of_ne_zero hattempts
    have hgoing : ¬ (pool.isEmpty = true ∨ fillings ≤ (([] : List Ingredient).length : Int)) := by
      rw [List.isEmpty_iff, List.length_nil]
      rintro (h | h)
      · exact hpool h
      · omega
    unfold fill
    rw [if_neg hgoing]
    refine returns_after fun candidate => ?_
    exact (returns_fill pool fillings attempts [candidate]).imp fun _ h =>
      h.ne_nil (List.cons_ne_nil candidate [])

/-! ## 3. Sandwiches -/

/-- **What a random sandwich is made of**, whatever the source is: a bread, and between its halves
in any order what has to be in and what was drawn. -/
theorem returns_randomSandwich (t : Taxonomy) (fillings : Int) (banned required : List Ingredient) :
    Returns (t.randomSandwich fillings banned required : Luck R Sandwich) fun s =>
      ∃ b ∈ t.breads, ∃ chosen middle, s.ingredients = b.1 :: middle ++ [b.2] ∧
        middle.Perm chosen ∧
        Filled (t.pool banned) fillings (requiredFillings required banned fillings) chosen ∧
        (0 < fillings → t.pool banned ≠ [] ∨ requiredFillings required banned fillings ≠ [] →
          chosen ≠ []) := by
  have hchosen : Returns (fill (t.pool banned) fillings (fillings.toNat * attemptsPerFilling)
      (requiredFillings required banned fillings) : Luck R (List Ingredient)) fun chosen =>
        Filled (t.pool banned) fillings (requiredFillings required banned fillings) chosen ∧
        (0 < fillings → t.pool banned ≠ [] ∨ requiredFillings required banned fillings ≠ [] →
          chosen ≠ []) := by
    have hfilled := returns_fill (R := R) (t.pool banned) fillings
      (fillings.toNat * attemptsPerFilling) (requiredFillings required banned fillings)
    by_cases hdraws : 0 < fillings ∧ t.pool banned ≠ []
    · have hattempts : fillings.toNat * attemptsPerFilling ≠ 0 :=
        Nat.mul_ne_zero (by omega) (by decide)
      exact (hfilled.and (returns_fill_ne_nil hdraws.2 hdraws.1 hattempts _)).imp
        fun _ h => ⟨h.1, fun _ _ => h.2⟩
    · exact hfilled.imp fun _ h => ⟨h, fun hpos hsome =>
        h.ne_nil (hsome.resolve_left fun hpool => hdraws ⟨hpos, hpool⟩)⟩
  refine returns_bind (returns_choose t.breads) fun b hb => ?_
  refine returns_bind hchosen fun chosen hchosen => ?_
  refine returns_bind (returns_shuffle chosen) fun middle hmiddle => ?_
  exact returns_after fun background =>
    returns_pure ⟨b, hb, chosen, middle, rfl, hmiddle, hchosen.1, hchosen.2⟩

end Fill

/-- The leaves among the required ingredients that are not excluded, as childless copies. -/
def wanted (banned required : List Ingredient) : List Ingredient :=
  (required.filter fun i => i.isLeaf && !isBanned banned i).map (·.leaf)

theorem requiredFillings_eq (banned required : List Ingredient) (fillings : Nat) :
    requiredFillings required banned fillings = (wanted banned required).take fillings := by
  rw [requiredFillings, front, if_pos (Int.natCast_nonneg fillings), Int.toNat_natCast]
  rfl

theorem wanted_ne_nil {banned required : List Ingredient} : wanted banned required ≠ [] ↔
    ∃ i ∈ required, i.isLeaf = true ∧ isBanned banned i = false := by
  simp [wanted, List.filter_eq_nil_iff]

theorem mem_pool {t : Taxonomy} {banned : List Ingredient} {i : Ingredient} :
    i ∈ t.pool banned ↔ i ∈ t.fillings ∧ isBanned banned i = false := by
  simp [pool]

/-- The promised shape of a sandwich with so many fillings: a bread of the tree, and between its
halves no more than was asked for, but something if there is something to be had. In any order, this
is as much of what is wanted as there is room for, and otherwise fillings that are not excluded. -/
structure Layers (t : Taxonomy) (fillings : Nat) (banned required : List Ingredient) (bread : Bread)
    (middle : List Ingredient) : Prop where
  bread : bread.IsOf t.root
  few : middle.length ≤ fillings
  some : 1 ≤ fillings → ((∃ i ∈ t.fillings, isBanned banned i = false) ∨
    ∃ i ∈ required, i.isLeaf = true ∧ isBanned banned i = false) → middle ≠ []
  made : ∃ drawn, middle.Perm ((wanted banned required).take fillings ++ drawn) ∧
    ∀ i ∈ drawn, i ∈ t.fillings ∧ isBanned banned i = false

/-- Between the halves of a bread, what was wanted and what was drawn have the promised shape. -/
theorem Filled.layers {t : Taxonomy} {fillings : Nat}
    {banned required chosen middle : List Ingredient} {b : Bread} (hb : b ∈ t.breads)
    (hmiddle : middle.Perm chosen)
    (h : Filled (t.pool banned) fillings (requiredFillings required banned fillings) chosen)
    (hsome : 0 < (fillings : Int) → t.pool banned ≠ [] ∨
      requiredFillings required banned fillings ≠ [] → chosen ≠ []) :
    t.Layers fillings banned required b middle := by
  obtain ⟨⟨drawn, rfl, hdrawn⟩, hlength⟩ := h
  rw [requiredFillings_eq] at hmiddle hlength hsome
  refine ⟨t.isOf_of_mem hb, ?_, fun hpos hany => ?_, drawn, hmiddle,
    fun i hi => mem_pool.mp (hdrawn i hi)⟩
  · have hle := hlength (by rw [List.length_take]; omega)
    rw [hmiddle.length_eq]
    exact_mod_cast hle
  · have hthere : t.pool banned ≠ [] ∨ (wanted banned required).take fillings ≠ [] := by
      rcases hany with ⟨i, hi, hbanned⟩ | hleaf
      · exact Or.inl (List.ne_nil_of_mem (mem_pool.mpr ⟨hi, hbanned⟩))
      · have hwanted := List.length_pos_iff.mpr (wanted_ne_nil.mpr hleaf)
        refine Or.inr (List.length_pos_iff.mp ?_)
        rw [List.length_take]
        omega
    rintro rfl
    exact hsome (by omega) hthere (List.nil_perm.mp hmiddle)

/-- **A dreamt sandwich has the promised shape**, whatever is excluded and required: every fair
source gives one. -/
theorem randomSandwich_layers {R : Type} [Scalar R] (t : Taxonomy) (fillings : Nat)
    (banned required : List Ingredient) {c : Chance R} (hc : c.Fair) :
    ∃ s c' bread middle,
      (t.randomSandwich fillings banned required : Luck R Sandwich).perform c = (.ok s, c') ∧
      s.ingredients = bread.1 :: middle ++ [bread.2] ∧
      t.Layers fillings banned required bread middle := by
  have hlands := (t.lands_randomSandwich (Chance.lasting_fair (R := R)) fillings banned
    required).returns (t.returns_randomSandwich fillings banned required)
  obtain ⟨s, c', hperform, -, b, hb, chosen, middle, hs, hmiddle, hfilled, hsome⟩ :=
    (hlands c hc).exists
  exact ⟨s, c', b, middle, hperform, hs, hfilled.layers hb hmiddle hsome⟩

namespace House

/-- A spread. -/
def hummus : Ingredient := item "hummus" "hu"

/-- With room for two fillings, hummus is in if it has to be. -/
theorem layers_hummus : ∃ (s : Sandwich) (c' : Chance ℝ),
    (house.randomSandwich 2 [] [hummus]).perform (.seeded (Twister.ofSeed 8)) = (.ok s, c') ∧
      s.contains hummus = true ∧ s.ingredients.length ≤ 4 := by
  have hfair : (.seeded (Twister.ofSeed 8) : Chance ℝ).Fair := True.intro
  obtain ⟨s, c', bread, middle, hperform, hs, hlayers⟩ :=
    randomSandwich_layers house 2 [] [hummus] hfair
  obtain ⟨drawn, hmade, -⟩ := hlayers.made
  have hmem : hummus ∈ middle := hmade.mem_iff.mpr (List.mem_append_left _ List.mem_cons_self)
  refine ⟨s, c', hperform, ?_, ?_⟩
  · exact List.any_eq_true.mpr ⟨hummus, by simp [hs, hmem], by decide⟩
  · have hfew := hlayers.few
    rw [hs, List.length_append, List.length_cons, List.length_singleton]
    omega

end House

end Taxonomy

end DeliTalk
