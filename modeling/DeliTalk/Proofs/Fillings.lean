import DeliTalk.Proofs.Exclusion
import DeliTalk.Proofs.TreeWords

/-!
# What counts as a filling

A filling is a leaf that is no half of a bread on the menu. Every leaf outside the category of
breads is one. The menu knows the first two children of each kind of bread only, so a leaf of the
category that is neither, a third child or something further down, is a filling as well; it can be
drawn, and gets between the halves of a bread. Fillings are the leaves outside the category exactly
if every kind of bread has two children and both are leaves.

* `Ingredient.covers_iff`: what lies below a node, by name.
* `Taxonomy.Outside`, `outside`, `outside_eq`: the leaves outside the category of breads.
* `Taxonomy.Distinct.eq_of_mem_visit`: no name is found below two nodes.
* `Taxonomy.Paired`, `forall_outside_iff`: kinds of bread with nothing but halves.
* `Taxonomy.fillings_outside`: when fillings are the leaves outside the category.
-/

namespace DeliTalk

open Act

namespace Taxonomy

/-! ## 1. Trees of distinct names -/

/-- Everything visited from a node on the way is visited on the way, in the same order. -/
theorem visit_sublist {p : Ingredient × String} (agenda : List (Ingredient × String))
    (h : p ∈ visit agenda) : (visit [p]).Sublist (visit agenda) := by
  induction agenda using visit.induct with
  | case1 => simp at h
  | case2 node word rest ih =>
    rw [visit_cons] at h
    rcases List.mem_cons.mp h with rfl | hmore
    · rw [visit_cons, visit_cons, List.append_nil, visit_append]
      exact (List.sublist_append_left _ _).cons_cons _
    · rw [visit_cons node word]
      exact (ih hmore).cons _

/-- What is on the agenda is visited, in the same order. -/
theorem sublist_visit : ∀ agenda : List (Ingredient × String), agenda.Sublist (visit agenda)
  | [] => List.nil_sublist _
  | q :: rest => by
    rw [visit_cons_eq_append, visit_cons, List.cons_append]
    exact ((sublist_visit rest).trans (List.sublist_append_right _ _)).cons_cons q

/-- Whether all nodes to be visited have different names. -/
def Distinct (agenda : List (Ingredient × String)) : Prop :=
  ((visit agenda).map (·.1.name)).Nodup

theorem Distinct.of_mem {agenda : List (Ingredient × String)} {p : Ingredient × String}
    (h : Distinct agenda) (hp : p ∈ visit agenda) : Distinct [p] :=
  h.sublist ((visit_sublist agenda hp).map _)

/-- Below a node there are different names, too, and none of them is its own. -/
theorem Distinct.branches {i : Ingredient} {word : String} (h : Distinct [(i, word)]) :
    Distinct (branches i word) ∧ ∀ r ∈ visit (branches i word), r.1.name ≠ i.name := by
  rw [Distinct, visit_cons, List.append_nil, List.map_cons, List.nodup_cons] at h
  exact ⟨h.2, fun r hr heq => h.1 (heq ▸ List.mem_map_of_mem hr)⟩

/-- **No name is found below two nodes of an agenda.** -/
theorem Distinct.eq_of_mem_visit {p q r r' : Ingredient × String} :
    ∀ {agenda : List (Ingredient × String)}, Distinct agenda → p ∈ agenda → q ∈ agenda →
      r ∈ visit [p] → r' ∈ visit [q] → r.1.name = r'.1.name → p = q
  | x :: rest, h, hp, hq, hr, hr', heq => by
    rw [Distinct, visit_cons_eq_append, List.map_append, List.nodup_append] at h
    obtain ⟨-, hrest, hapart⟩ := h
    have hbelow : ∀ {y z}, y ∈ visit [x] → z ∈ visit rest → y.1.name ≠ z.1.name :=
      fun hy hz => hapart _ (List.mem_map_of_mem hy) _ (List.mem_map_of_mem hz)
    rcases List.mem_cons.mp hp with rfl | hpr <;> rcases List.mem_cons.mp hq with rfl | hqr
    · rfl
    · exact absurd heq (hbelow hr (mem_visit.mpr ⟨q, hqr, hr'⟩))
    · exact absurd heq.symm (hbelow hr' (mem_visit.mpr ⟨p, hpr, hr⟩))
    · exact eq_of_mem_visit hrest hpr hqr hr hr' heq

/-- Below every node there is a leaf, which may be the node itself. -/
theorem exists_leaf (i : Ingredient) (word : String) :
    ∃ r ∈ visit [(i, word)], r.1.isLeaf = true := by
  cases hkids : i.kids with
  | nil => exact ⟨_, mem_visit_self i word, by simp [Ingredient.isLeaf, hkids]⟩
  | cons c rest =>
    have hc : c ∈ i.kids := by simp [hkids]
    obtain ⟨r, hr, hleaf⟩ := exists_leaf c (word ++ c.morpheme)
    exact ⟨r, mem_visit_singleton.mpr (Or.inr ⟨c, hc, hr⟩), hleaf⟩
termination_by i.size
decreasing_by exact size_lt_of_mem_kids hc

end Taxonomy

namespace Ingredient

mutual

/-- **What an ingredient covers** are the names of the nodes visited from it. -/
theorem covers_iff : ∀ (i : Ingredient) (word wanted : String),
    i.covers wanted = true ↔ ∃ r ∈ Taxonomy.visit [(i, word)], r.1.name = wanted
  | ⟨name, morpheme, none⟩, word, wanted => by
    simp [covers, Taxonomy.visit_cons, Taxonomy.branches, kids]
  | ⟨name, morpheme, some cs⟩, word, wanted => by
    rw [covers, Bool.or_eq_true, beq_iff_eq, anyCovers_iff cs word wanted, Taxonomy.visit_cons,
      List.append_nil]
    simp [Taxonomy.branches, kids]

theorem anyCovers_iff : ∀ (cs : List Ingredient) (word wanted : String),
    anyCovers cs wanted = true ↔
      ∃ r ∈ Taxonomy.visit (cs.map fun c => (c, word ++ c.morpheme)), r.1.name = wanted
  | [], word, wanted => by simp [anyCovers]
  | c :: rest, word, wanted => by
    rw [anyCovers, Bool.or_eq_true, covers_iff c (word ++ c.morpheme) wanted,
      anyCovers_iff rest word wanted, List.map_cons,
      Taxonomy.visit_cons_eq_append _ (rest.map _)]
    simp only [List.mem_append, or_and_right, exists_or]

end

end Ingredient

namespace Taxonomy

/-! ## 2. The category of breads -/

/-- The category of breads: the first child of the root that has its name. -/
def base? (t : Taxonomy) : Option Ingredient := t.root.kids.find? (·.name == baseName)

/-- Whether an ingredient is outside the category of breads. -/
def Outside (t : Taxonomy) (i : Ingredient) : Prop :=
  ∀ base, t.base? = some base → base.includes i = false

instance (t : Taxonomy) (i : Ingredient) : Decidable (t.Outside i) :=
  match h : t.base? with
  | none => .isTrue fun base hbase => by simp [h] at hbase
  | some base => decidable_of_iff (base.includes i = false)
      ⟨fun hi b hb => by rw [h, Option.some.injEq] at hb; exact hb ▸ hi, fun hi => hi base h⟩

/-- The leaves outside the category of breads, in the order of the walk. -/
def outside (t : Taxonomy) : List Ingredient :=
  (t.leaves.map (·.1)).filter fun i => t.Outside i

/-- Whether every kind of bread has a bottom and a top, which are leaves, and nothing else. -/
def Paired (t : Taxonomy) : Prop :=
  ∀ base, t.base? = some base → ∀ kind ∈ base.kids, ∃ bottom top,
    kind.kids = [bottom, top] ∧ bottom.isLeaf = true ∧ top.isLeaf = true

variable {t : Taxonomy}

/-- **Every menu has a category of breads**, a category indeed, and each of its kinds has a bottom
and a top on the menu. -/
theorem exists_base (t : Taxonomy) : ∃ base, t.base? = some base ∧ base ∈ t.root.kids ∧
    base.isLeaf = false ∧ ∀ kind ∈ base.kids, ∃ bottom top more,
      kind.kids = bottom :: top :: more ∧ (bottom.leaf, top.leaf) ∈ t.breads := by
  obtain ⟨base, hbase, hleaf, hbreads⟩ := t.exists_base_breads
  refine ⟨base, hbase, List.mem_of_find?_eq_some hbase, hleaf, fun kind hkind => ?_⟩
  obtain ⟨b, hb, hbread⟩ := exists_mem_of_forall₂ hbreads.flip hkind
  obtain ⟨bottom, top, more, hkids, rfl⟩ := ofKind_ok hbread
  exact ⟨bottom, top, more, hkids, hb⟩

theorem mem_leaves_map {i : Ingredient} :
    i ∈ t.leaves.map (·.1) ↔ ∃ p ∈ t.walk, p.1.isLeaf = true ∧ p.1.leaf = i := by
  simp [leaves, and_assoc]

/-- A half of a bread is a child of a kind of bread. -/
theorem exists_half {i : Ingredient} (h : t.isBase i = true) :
    ∃ base kind half, t.base? = some base ∧ kind ∈ base.kids ∧ half ∈ kind.kids.take 2 ∧
      half.name = i.name := by
  obtain ⟨b, hb, hsame⟩ := List.any_eq_true.mp h
  obtain ⟨base, kind, bottom, top, more, hbase, hkind, hkids, rfl⟩ := t.isOf_of_mem hb
  rw [Bool.or_eq_true, Ingredient.same, Ingredient.same, beq_iff_eq, beq_iff_eq] at hsame
  rcases hsame with hname | hname
  · exact ⟨base, kind, bottom, hbase, hkind, by simp [hkids], hname⟩
  · exact ⟨base, kind, top, hbase, hkind, by simp [hkids], hname⟩

/-- What is visited from the category of breads is not outside. -/
theorem not_outside {base : Ingredient} (hbase : t.base? = some base) (word : String)
    {r : Ingredient × String} (hr : r ∈ visit [(base, word)]) : ¬ t.Outside r.1 := fun h => by
  have hcovers := (base.covers_iff word r.1.name).mpr ⟨r, hr, rfl⟩
  rw [← Ingredient.includes, h base hbase] at hcovers
  cases hcovers

/-- No half of a bread is outside the category of breads. -/
theorem isBase_of_outside {i : Ingredient} (h : t.Outside i) : t.isBase i = false := by
  rw [Bool.eq_false_iff]
  intro hhalf
  obtain ⟨base, kind, half, hbase, hkind, hhalf, hname⟩ := exists_half hhalf
  refine not_outside hbase "" (mem_visit_singleton.mpr (Or.inr ⟨kind, hkind,
    mem_visit_singleton.mpr (Or.inr ⟨half, List.mem_of_mem_take hhalf, mem_visit_self _ _⟩)⟩))
    fun b hb => ?_
  rw [Ingredient.includes, hname]
  exact h b hb

/-- Leaves outside the category of breads are the fillings that are. -/
theorem outside_eq (t : Taxonomy) : t.outside = t.fillings.filter fun i => t.Outside i := by
  rw [outside, fillings, List.filter_filter]
  refine List.filter_congr fun i _ => ?_
  by_cases h : t.Outside i <;> simp [h, isBase_of_outside]

/-- Fillings are the leaves outside the category of breads as soon as no other leaf is a filling. -/
theorem fillings_eq_outside : t.fillings = t.outside ↔ ∀ i ∈ t.fillings, t.Outside i := by
  rw [outside_eq, eq_comm, List.filter_eq_self]
  simp

section Distinct

variable (hnames : (t.walk.map (·.1.name)).Nodup)

include hnames

/-- Where kinds of bread have nothing but halves, every leaf of the category of breads is one. -/
theorem isBase_of_paired (h : t.Paired) {p : Ingredient × String} (hp : p ∈ t.walk)
    (hleaf : p.1.isLeaf = true) (hinside : ¬ t.Outside p.1) : t.isBase p.1 = true := by
  obtain ⟨base, hbase, hkid, hcategory, hhalves⟩ := t.exists_base
  have hcovers : base.covers p.1.name = true := by
    by_contra hno
    refine hinside fun b hb => ?_
    rw [hbase, Option.some.injEq] at hb
    exact hb ▸ Bool.eq_false_iff.mpr hno
  have hbelow := mem_walk_of_mem_kids t.root_mem_walk hkid
  obtain ⟨r, hr, hname⟩ := (base.covers_iff _ _).mp hcovers
  obtain rfl : r = p :=
    List.inj_on_of_nodup_map hnames (mem_visit_trans _ _ hbelow hr) hp hname
  -- the leaf is below the category, below a kind of bread, and then one of the two halves
  rcases mem_visit_singleton.mp hr with rfl | ⟨kind, hkind, hr⟩
  · rw [hcategory] at hleaf
    cases hleaf
  · obtain ⟨bottom, top, hkids, hbottom, htop⟩ := h base hbase kind hkind
    obtain ⟨bottom', top', more, hkids', hbread⟩ := hhalves kind hkind
    rw [hkids, List.cons.injEq, List.cons.injEq] at hkids'
    obtain ⟨rfl, rfl, rfl⟩ := hkids'
    rcases mem_visit_singleton.mp hr with rfl | ⟨half, hhalf, hr⟩
    · simp [Ingredient.isLeaf, hkids] at hleaf
    · have halone : half.kids = [] := by
        rw [hkids, List.mem_pair] at hhalf
        rcases hhalf with rfl | rfl
        · exact List.isEmpty_iff.mp hbottom
        · exact List.isEmpty_iff.mp htop
      obtain rfl : r = _ := by
        rcases mem_visit_singleton.mp hr with hself | ⟨c, hc, -⟩
        · exact hself
        · simp [halone] at hc
      refine List.any_eq_true.mpr ⟨_, hbread, ?_⟩
      rw [hkids, List.mem_pair] at hhalf
      rcases hhalf with rfl | rfl <;> simp [Ingredient.same]

/-- Where every leaf of the category of breads is a half, every child of a kind of bread is one of
its two halves. -/
theorem half_of_isBase
    (h : ∀ p ∈ t.walk, p.1.isLeaf = true → ¬ t.Outside p.1 → t.isBase p.1 = true)
    {base kind c : Ingredient} (hbase : t.base? = some base) (hkind : kind ∈ base.kids)
    (hc : c ∈ kind.kids) : c ∈ kind.kids.take 2 ∧ c.isLeaf = true := by
  have hdistinct : Distinct [(t.root, t.root.morpheme)] := hnames
  have hbaseWalk := mem_walk_of_mem_kids t.root_mem_walk (List.mem_of_find?_eq_some hbase)
  have hkindWalk := mem_walk_of_mem_kids hbaseWalk hkind
  have hcWalk := mem_walk_of_mem_kids hkindWalk hc
  -- a leaf below the child is a half of a bread, which can only be the child itself
  obtain ⟨r, hr, hleaf⟩ :=
    exists_leaf c (t.root.morpheme ++ base.morpheme ++ kind.morpheme ++ c.morpheme)
  have hbelowKind := mem_visit_singleton.mpr (Or.inr ⟨c, hc, hr⟩)
  have hbelowBase := mem_visit_singleton.mpr (Or.inr ⟨kind, hkind, hbelowKind⟩)
  obtain ⟨base', kind', half, hbase', hkind', hhalf, hname⟩ :=
    exists_half (h r (mem_visit_trans _ _ hcWalk hr) hleaf (not_outside hbase _ hbelowBase))
  obtain rfl : base' = base := Option.some.inj (hbase'.symm.trans hbase)
  have hhalfKid := List.mem_of_mem_take hhalf
  obtain ⟨rfl, -⟩ := Prod.mk.inj ((hdistinct.of_mem hbaseWalk).branches.1.eq_of_mem_visit
    (List.mem_map_of_mem hkind) (List.mem_map_of_mem hkind') hbelowKind
    (mem_visit_singleton.mpr (Or.inr ⟨half, hhalfKid, mem_visit_self _ _⟩)) hname.symm)
  obtain ⟨rfl, -⟩ := Prod.mk.inj ((hdistinct.of_mem hkindWalk).branches.1.eq_of_mem_visit
    (List.mem_map_of_mem hc) (List.mem_map_of_mem hhalfKid) hr (mem_visit_self _ _) hname.symm)
  rcases mem_visit_singleton.mp hr with rfl | ⟨d, hd, hr⟩
  · exact ⟨hhalf, hleaf⟩
  · exact absurd hname.symm ((hdistinct.of_mem hcWalk).branches.2 r
      (mem_visit.mpr ⟨_, List.mem_map_of_mem hd, hr⟩))

/-- Where every leaf of the category of breads is a half, kinds of bread have nothing else. -/
theorem paired_of_isBase
    (h : ∀ p ∈ t.walk, p.1.isLeaf = true → ¬ t.Outside p.1 → t.isBase p.1 = true) : t.Paired := by
  intro base hbase kind hkind
  obtain ⟨base', hbase', hkid, -, hhalves⟩ := t.exists_base
  obtain rfl : base' = base := Option.some.inj (hbase'.symm.trans hbase)
  obtain ⟨bottom, top, more, hkids, -⟩ := hhalves kind hkind
  have honly : ∀ c ∈ kind.kids, c ∈ kind.kids.take 2 ∧ c.isLeaf = true := fun c hc =>
    half_of_isBase hnames h hbase hkind hc
  have hsiblings : kind.kids.Nodup := by
    have hdistinct : Distinct [(t.root, t.root.morpheme)] := hnames
    have hbelow := (hdistinct.of_mem (mem_walk_of_mem_kids
      (mem_walk_of_mem_kids t.root_mem_walk hkid) hkind)).branches.1
    exact (List.Nodup.of_map _ (hbelow.sublist ((sublist_visit _).map _))).of_map _
  refine ⟨bottom, top, ?_, (honly bottom (by simp [hkids])).2, (honly top (by simp [hkids])).2⟩
  rw [hkids] at honly hsiblings ⊢
  cases more with
  | nil => rfl
  | cons c more =>
    have hthird := (honly c (by simp)).1
    rw [List.take_succ_cons, List.take_succ_cons, List.take_zero, List.mem_pair] at hthird
    simp only [List.nodup_cons, List.mem_cons, not_or] at hsiblings
    rcases hthird with rfl | rfl
    · exact absurd rfl hsiblings.1.2.1
    · exact absurd rfl hsiblings.2.1.1

/-- **Fillings are the leaves outside the category of breads** exactly if kinds of bread have nothing
but halves. -/
theorem forall_outside_iff : (∀ i ∈ t.fillings, t.Outside i) ↔ t.Paired := by
  constructor
  · intro h
    refine paired_of_isBase hnames fun p hp hpleaf hinside => ?_
    by_contra hhalf
    have hno : t.isBase p.1.leaf = false := Bool.eq_false_iff.mpr hhalf
    exact hinside (h p.1.leaf (List.mem_filter.mpr
      ⟨mem_leaves_map.mpr ⟨p, hp, hpleaf, rfl⟩, by simp [hno]⟩))
  · intro h i hi
    obtain ⟨hmem, hhalf⟩ := List.mem_filter.mp hi
    obtain ⟨p, hp, hpleaf, rfl⟩ := mem_leaves_map.mp hmem
    by_contra hinside
    have hbase := isBase_of_paired hnames h hp hpleaf hinside
    rw [Bool.not_eq_true'] at hhalf
    exact Bool.false_ne_true (hhalf.symm.trans hbase)

end Distinct

/-! ## 3. What is drawn -/

/-- Whether a random filling is never from the category of breads, whatever the draws are. -/
def DrawsOutside (t : Taxonomy) : Prop :=
  ∀ (c c' : Chance ℝ) (i : Ingredient), c.Proper → t.randomFilling.perform c = (.ok i, c') →
    t.Outside i

/-- Whether between the halves of its bread a sandwich has nothing from the category of breads. -/
def Parted (t : Taxonomy) (s : Sandwich) : Prop :=
  ∃ b ∈ t.breads, ∃ middle, s.ingredients = b.1 :: middle ++ [b.2] ∧ ∀ i ∈ middle, t.Outside i

/-- Whether that is so of every random sandwich without required ingredients. -/
def DreamsOutside (t : Taxonomy) : Prop :=
  ∀ (fillings : Int) (banned : List Ingredient) (c c' : Chance ℝ) (s : Sandwich), c.Proper →
    (t.randomSandwich fillings banned []).perform c = (.ok s, c') → t.Parted s

/-- Fillings are drawn, and nothing else. -/
theorem returns_randomFilling {R : Type} [Scalar R] (t : Taxonomy) :
    Returns (t.randomFilling : Luck R Ingredient) fun i => i ∈ t.fillings := by
  unfold randomFilling
  split
  · exact returns_ofExcept nofun
  · exact returns_choose t.fillings

/-- Without required ingredients there are fillings between the halves of a bread, and nothing
else. -/
theorem returns_randomSandwich_fillings {R : Type} [Scalar R] (t : Taxonomy) (fillings : Int)
    (banned : List Ingredient) :
    Returns (t.randomSandwich fillings banned [] : Luck R Sandwich) fun s =>
      ∃ b ∈ t.breads, ∃ middle, s.ingredients = b.1 :: middle ++ [b.2] ∧
        ∀ i ∈ middle, i ∈ t.fillings := by
  refine (t.returns_randomSandwich fillings banned []).imp fun s h => ?_
  obtain ⟨b, hb, chosen, middle, hs, hmiddle, ⟨⟨drawn, rfl, hdrawn⟩, -⟩, -⟩ := h
  have hnone : requiredFillings [] banned fillings = [] := by
    unfold requiredFillings front
    split <;> simp
  rw [hnone, List.nil_append] at hmiddle
  exact ⟨b, hb, middle, hs, fun i hi => (mem_pool.mp (hdrawn i (hmiddle.mem_iff.mp hi))).1⟩

section Draws

variable {k : Nat} (hk : k < t.fillings.length)

include hk

/-- Any filling can be drawn. -/
theorem lands_randomFilling_even :
    Lands (Chance.Even (share k t.fillings.length)) t.randomFilling (· = t.fillings[k]) := by
  have hne : ¬ t.fillings.isEmpty = true := by
    rw [List.isEmpty_iff_length_eq_zero]
    omega
  unfold randomFilling
  rw [if_neg hne]
  exact lands_choose_even hk

/-- Any filling can be the only one. -/
theorem lands_fill_even (attempts : Nat) : Lands (Chance.Even (share k t.fillings.length))
    (fill t.fillings 1 (attempts + 1) []) (· = [t.fillings[k]]) := by
  have hgoing : ¬ (t.fillings.isEmpty = true ∨ (1 : Int) ≤ (([] : List Ingredient).length : Int)) :=
    by
      rw [List.isEmpty_iff_length_eq_zero, List.length_nil]
      omega
  unfold fill
  rw [if_neg hgoing]
  refine lands_bind (lands_choose_even hk) fun candidate hcandidate => ?_
  subst hcandidate
  show Lands _ (fill t.fillings 1 attempts [t.fillings[k]]) _
  have hfull : (1 : Int) ≤ (([t.fillings[k]] : List Ingredient).length : Int) := le_refl 1
  unfold fill
  split
  · exact lands_pure rfl
  · rw [if_pos (Or.inr hfull)]
    exact lands_pure rfl

/-- Any filling can be the only one of a sandwich. -/
theorem lands_randomSandwich_even :
    Lands (Chance.Even (share k t.fillings.length)) (t.randomSandwich 1 [] [])
      fun s => ∃ b : Bread, s.ingredients = [b.1, t.fillings[k], b.2] := by
  have hkind := Chance.lasting_even (share_bounds hk)
  have hpool : t.pool [] = t.fillings := List.filter_eq_self.mpr fun _ _ => rfl
  refine lands_bind (lands_choose hkind t.breads_ne_nil) fun b _ => ?_
  rw [hpool]
  refine lands_bind (lands_fill_even hk 19) fun chosen hchosen => ?_
  refine lands_bind (lands_shuffle hkind chosen) fun middle hmiddle => ?_
  rw [hchosen, List.perm_singleton] at hmiddle
  subst hmiddle
  exact lands_bind (lands_choose hkind (by decide)) fun _ _ => lands_pure ⟨b, rfl⟩

/-- A source that stays the same throughout. -/
theorem exists_even : ∃ c : Chance ℝ, c.Even (share k t.fillings.length) ∧ c.Proper :=
  ⟨.scripted (fun _ => share k t.fillings.length) 0, ⟨0, rfl⟩,
    Chance.Even.proper (share_bounds hk) ⟨0, rfl⟩⟩

end Draws

/-- Random fillings are outside the category of breads exactly if all fillings are. -/
theorem drawsOutside_iff : t.DrawsOutside ↔ ∀ i ∈ t.fillings, t.Outside i := by
  constructor
  · intro h i hi
    obtain ⟨k, hk, rfl⟩ := List.getElem_of_mem hi
    obtain ⟨c, heven, hproper⟩ := exists_even hk
    obtain ⟨i, c', hperform, -, rfl⟩ := (lands_randomFilling_even hk c heven).exists
    exact h c c' _ hproper hperform
  · intro h c c' i _ hperform
    exact h i (t.returns_randomFilling.of_perform hperform)

/-- So are the insides of random sandwiches. -/
theorem dreamsOutside_iff : t.DreamsOutside ↔ ∀ i ∈ t.fillings, t.Outside i := by
  constructor
  · intro h i hi
    obtain ⟨k, hk, rfl⟩ := List.getElem_of_mem hi
    obtain ⟨c, heven, hproper⟩ := exists_even hk
    obtain ⟨s, c', hperform, -, b, hs⟩ := (lands_randomSandwich_even hk c heven).exists
    obtain ⟨b', -, middle, hs', hmiddle⟩ := h 1 [] c c' s hproper hperform
    refine hmiddle _ ?_
    have hsplit : [b.1, t.fillings[k]] ++ [b.2] = (b'.1 :: middle) ++ [b'.2] := hs.symm.trans hs'
    have hfront := (List.append_inj' hsplit rfl).1
    rw [List.cons.injEq] at hfront
    exact hfront.2 ▸ List.mem_cons_self
  · intro h fillings banned c c' s _ hperform
    obtain ⟨b, hb, middle, hs, hmiddle⟩ :=
      (t.returns_randomSandwich_fillings fillings banned).of_perform hperform
    exact ⟨b, hb, middle, hs, fun i hi => h i (hmiddle i hi)⟩

/-- **When fillings are the leaves outside the category of breads.** In a tree of distinct names no
half of a bread on the menu is a filling, so none is drawn as one and none gets between the halves
of a random sandwich without required ingredients; and the leaves outside the category of breads are
fillings, in the order of the walk. The fillings are these leaves, random fillings are outside the
category, and so is all that gets between the halves of such sandwiches, each of the three exactly
if every kind of bread has two children and both are leaves. -/
theorem fillings_outside (t : Taxonomy) (hnames : (t.walk.map (·.1.name)).Nodup) :
    ((∀ (R : Type) [Scalar R] (c c' : Chance R),
        (∀ i, t.randomFilling.perform c = (.ok i, c') → t.isBase i = false) ∧
        ∀ fillings banned s, (t.randomSandwich fillings banned []).perform c = (.ok s, c') →
          ∃ b ∈ t.breads, ∃ middle, s.ingredients = b.1 :: middle ++ [b.2] ∧
            ∀ i ∈ middle, t.isBase i = false) ∧
      t.outside.Sublist t.fillings) ∧
    (t.fillings = t.outside ↔ t.Paired) ∧
    (t.DrawsOutside ↔ t.Paired) ∧
    (t.DreamsOutside ↔ t.Paired) := by
  have hhalf : ∀ i ∈ t.fillings, t.isBase i = false := fun i hi => by
    simpa using (List.mem_filter.mp hi).2
  have hpaired := forall_outside_iff hnames
  refine ⟨⟨fun R _ c c' => ⟨fun i h => ?_, fun fillings banned s h => ?_⟩, ?_⟩,
    fillings_eq_outside.trans hpaired, drawsOutside_iff.trans hpaired,
    dreamsOutside_iff.trans hpaired⟩
  · exact hhalf i (t.returns_randomFilling.of_perform h)
  · obtain ⟨b, hb, middle, hs, hmiddle⟩ :=
      (t.returns_randomSandwich_fillings fillings banned).of_perform h
    exact ⟨b, hb, middle, hs, fun i hi => hhalf i (hmiddle i hi)⟩
  · rw [outside_eq]
    exact List.filter_sublist

namespace House

theorem paired_house : house.Paired := by
  intro base hbase kind hkind
  obtain rfl : House.base = base := Option.some.inj hbase
  rcases List.mem_cons.mp hkind with rfl | hkind
  · exact ⟨_, _, rfl, rfl, rfl⟩
  rcases List.mem_pair.mp hkind with rfl | rfl <;> exact ⟨_, _, rfl, rfl, rfl⟩

/-- A menu whose white bread has a heel besides its two halves. -/
def heeled : Taxonomy :=
  ⟨category "ingredient" "sa"
      [category "base" "po"
        [category "white" "ke" [item "white-bread-bottom" "li", item "white-bread-top" "lu",
          item "heel" "la"]],
        category "cheese" "wa" [item "cheddar" "pe"]],
    [(item "white-bread-bottom" "li", item "white-bread-top" "lu")], rfl⟩

theorem not_paired_heeled : ¬ heeled.Paired := by
  intro h
  obtain ⟨bottom, top, hkids, -⟩ := h _ rfl _ List.mem_cons_self
  simp [Ingredient.kids, category] at hkids

/-- The fillings of the house are the leaves outside its category of breads, and no bread is drawn
as one. On the menu with the heel the heel is a filling, and can be drawn. -/
theorem fillings_outside_house :
    (house.fillings = house.outside ∧ house.DrawsOutside ∧ house.DreamsOutside) ∧
      heeled.fillings ≠ heeled.outside ∧ ¬ heeled.DrawsOutside ∧ ¬ heeled.DreamsOutside := by
  obtain ⟨-, hfillings, hdraws, hdreams⟩ := fillings_outside house (by decide +kernel)
  obtain ⟨-, hfillings', hdraws', hdreams'⟩ := fillings_outside heeled (by decide +kernel)
  refine ⟨⟨hfillings.mpr paired_house, hdraws.mpr paired_house, hdreams.mpr paired_house⟩, ?_⟩
  exact ⟨fun h => not_paired_heeled (hfillings'.mp h),
    fun h => not_paired_heeled (hdraws'.mp h), fun h => not_paired_heeled (hdreams'.mp h)⟩

end House

end Taxonomy

end DeliTalk
