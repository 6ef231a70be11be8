import DeliTalk.Order.Dream
import DeliTalk.Order.Turn
import DeliTalk.Proofs.Ending
import DeliTalk.Proofs.Reals

/-!
# What luck yields

An act on a source of chance is judged by the values it can give, whatever the draws are. Wherever
it starts, what it returns is made of what it was given; on a source that stays fair it does not
fail as long as there is something to choose from. Over the real numbers every draw of a proper
source lies between zero and one.

* `Chance.Proper`: a source whose given draws lie between zero and one.
* `Chance.Lasting`, `Lands`: kinds of sources that stay fair, and acts that never fail on them.
* `returns_choose`, `returns_shuffle`, `lands_choose`, `lands_shuffle`: the acts machines are made
  of.
* `Yields`: an act that never fails on a proper source, and the values it can give.
* `yields_pickWeighted`: choices by weights.
* `Taxonomy.lands_randomSandwich`, `Order.yields_dream`: every customer dreams of something.
-/

namespace DeliTalk

/-! ## 1. Proper sources -/

theorem Twister.fraction_lt (t : Twister) : t.fraction.1 < Chance.resolution := by
  have key : ∀ high low : UInt32,
      (high >>> 5).toNat * 67108864 + (low >>> 6).toNat < 9007199254740992 := by
    intro high low
    have hhigh := high.toNat_lt
    have hlow := low.toNat_lt
    have hfive : ((5 : UInt32).toNat) % 32 = 5 := rfl
    have hsix : ((6 : UInt32).toNat) % 32 = 6 := rfl
    simp only [UInt32.toNat_shiftRight, Nat.shiftRight_eq_div_pow, hfive, hsix]
    omega
  exact key _ _

namespace Chance

/-- A seeded source, or given draws from zero to below one. -/
def Proper : Chance ℝ → Prop
  | seeded _ => True
  | scripted draws _ => ∀ i, 0 ≤ draws i ∧ draws i < 1

namespace Proper

variable {c : Chance ℝ}

/-- A proper source is fair. -/
theorem fair (h : c.Proper) : c.Fair := by
  cases c with
  | seeded t => exact True.intro
  | scripted draws used =>
    intro i bound hbound
    obtain ⟨hlow, hhigh⟩ := h i
    have hpos : (0 : ℝ) < bound := Nat.cast_pos.mpr hbound
    rw [Scalar.ofNat_real]
    refine ⟨rfl, Int.floor_nonneg.mpr (mul_nonneg hlow hpos.le), ?_⟩
    rw [Scalar.floor_real, Int.floor_lt]
    calc draws i * bound < 1 * bound := mul_lt_mul_of_pos_right hhigh hpos
      _ = ((bound : Int) : ℝ) := by rw [one_mul, Int.cast_natCast]

theorem draw (h : c.Proper) : c.draw.2.Proper := by
  cases c with
  | seeded t => exact True.intro
  | scripted draws used => exact h

theorem below (h : c.Proper) (bound : Nat) : (c.below bound).2.Proper := by
  cases c with
  | seeded t => exact True.intro
  | scripted draws used => exact h

/-- No draw is below zero. -/
theorem draw_nonneg (h : c.Proper) : 0 ≤ c.draw.1 := by
  cases c with
  | seeded t =>
    show 0 ≤ ofFraction t.fraction.1
    rw [ofFraction, Scalar.ofNat_real, Scalar.ofNat_real]
    positivity
  | scripted draws used => exact (h used).1

/-- No draw is as large as one. -/
theorem draw_lt_one (h : c.Proper) : c.draw.1 < 1 := by
  cases c with
  | seeded t =>
    show ofFraction t.fraction.1 < 1
    have hlt : (t.fraction.1 : ℝ) < resolution := Nat.cast_lt.mpr t.fraction_lt
    have hpos : (0 : ℝ) < resolution := Nat.cast_pos.mpr (by decide)
    rw [ofFraction, Scalar.ofNat_real, Scalar.ofNat_real]
    exact (div_lt_one hpos).mpr hlt
  | scripted draws used => exact (h used).2

end Proper

end Chance

/-! ## 2. Kinds of sources -/

namespace Chance

/-- A kind of source that is fair and stays of the kind whatever is drawn from it. -/
structure Lasting {R : Type} [Scalar R] (kind : Chance R → Prop) : Prop where
  fair : ∀ {c}, kind c → c.Fair
  draw : ∀ {c}, kind c → kind c.draw.2
  below : ∀ {c}, kind c → ∀ bound, kind (c.below bound).2

theorem lasting_fair {R : Type} [Scalar R] : Lasting (Fair : Chance R → Prop) where
  fair := id
  draw := Fair.draw
  below := Fair.below

theorem lasting_proper : Lasting Proper where
  fair := Proper.fair
  draw := Proper.draw
  below := Proper.below

end Chance

section Lands

variable {R : Type} {α β : Type} {kind : Chance R → Prop}

/-- An act that never fails on a source of some kind and leaves one of that kind, with values of a
kind. -/
def Lands (kind : Chance R → Prop) (x : Luck R α) (post : α → Prop) : Prop :=
  ∀ c, kind c → Act.Ends x c (fun a c' => kind c' ∧ post a) Act.never

variable {post : α → Prop}

theorem lands_pure {a : α} (h : post a) : Lands kind (pure a) post := fun _ hc => ⟨hc, h⟩

theorem lands_bind {x : Luck R α} {f : α → Luck R β} {post' : β → Prop} (hx : Lands kind x post)
    (hf : ∀ a, post a → Lands kind (f a) post') : Lands kind (x >>= f) post' := fun c hc =>
  Act.ends_bind.mpr ((hx c hc).imp fun a c' h => hf a h.2 c' h.1)

theorem Lands.imp {x : Luck R α} {post' : α → Prop} (h : Lands kind x post)
    (hp : ∀ a, post a → post' a) : Lands kind x post' := fun c hc =>
  (h c hc).imp fun a _ h => ⟨h.1, hp a h.2⟩

theorem lands_ok {x : Except Fault α} {a : α} (hx : x = .ok a) (h : post a) :
    Lands kind (Act.ofExcept x) post := by
  subst hx
  exact fun _ hc => ⟨hc, h⟩

/-- What is known of a value wherever an act starts is known of where it lands. -/
theorem Lands.returns {x : Luck R α} {post' : α → Prop} (h : Lands kind x post)
    (hr : Act.Returns x post') : Lands kind x post' := fun c hc =>
  (Act.Ends.and (h c hc) (hr c)).mono (fun _ _ h => ⟨h.1.1, h.2⟩) fun _ _ h => h.1

/-! ## 3. Draws and choices -/

/-- A value that is returned is at the place it was taken from. -/
theorem returns_atPlace (xs : List α) (place : Int) :
    Act.Returns (atPlace xs place : Luck R α) fun a => xs[indexIn xs.length place]? = some a := by
  unfold atPlace atPlace?
  split
  · rename_i a ha
    split at ha
    · exact Act.returns_pure ha
    · cases ha
  · exact Act.returns_ofExcept nofun

/-- The values at two places exchanged are the same values. -/
theorem returns_exchange (xs : List α) (i : Nat) (place : Int) :
    Act.Returns (exchange xs i place : Luck R (List α)) fun ys => ys.Perm xs := by
  refine Act.returns_bind (returns_atPlace xs i) fun x hx => ?_
  refine Act.returns_bind (returns_atPlace xs place) fun y hy => Act.returns_pure ?_
  rw [indexIn, if_pos (Int.natCast_nonneg i), Int.toNat_natCast] at hx
  obtain ⟨hi, rfl⟩ := List.getElem?_eq_some_iff.mp hx
  obtain ⟨hplace, rfl⟩ := List.getElem?_eq_some_iff.mp hy
  exact List.set_set_perm hi hplace

/-- A place that is there. -/
theorem lands_atPlace {xs : List α} {k : Nat} (h : k < xs.length) :
    Lands kind (atPlace xs (k : Int)) fun a => a = xs[k] := by
  have hplace : atPlace? xs (k : Int) = some xs[k] := by
    unfold atPlace? indexIn
    rw [if_pos (by omega), if_pos (by omega), Int.toNat_natCast, List.getElem?_eq_getElem h]
  unfold atPlace
  rw [hplace]
  exact lands_pure rfl

variable [Scalar R]

/-- **One of several values**, whatever is drawn. -/
theorem returns_choose (xs : List α) : Act.Returns (choose xs : Luck R α) fun a => a ∈ xs := by
  unfold choose
  split
  · exact Act.returns_ofExcept nofun
  · exact Act.returns_after fun place =>
      (returns_atPlace xs place).imp fun a ha => List.mem_of_getElem? ha

theorem returns_shuffleUpTo : ∀ (i : Nat) (xs : List α),
    Act.Returns (shuffleUpTo i xs : Luck R (List α)) fun ys => ys.Perm xs
  | 0, _ => Act.returns_pure (List.Perm.refl _)
  | i + 1, xs => Act.returns_after fun place =>
    Act.returns_bind (returns_exchange xs (i + 1) place) fun ys hys =>
      (returns_shuffleUpTo i ys).imp fun _ hzs => hzs.trans hys

/-- **A list in random order** has the same values. -/
theorem returns_shuffle (xs : List α) :
    Act.Returns (shuffle xs : Luck R (List α)) fun ys => ys.Perm xs := returns_shuffleUpTo _ xs

section Lasting

variable (hkind : Chance.Lasting kind)

include hkind

theorem lands_drawOne : Lands kind drawOne fun _ => True := fun _ hc => ⟨hkind.draw hc, True.intro⟩

theorem lands_roll (p : R) : Lands kind (roll p) fun _ => True := fun _ hc =>
  ⟨hkind.draw hc, True.intro⟩

/-- **A whole number below a bound.** -/
theorem lands_drawBelow {bound : Nat} (h : 0 < bound) :
    Lands kind (drawBelow bound) fun n => ∃ k : Nat, n = k ∧ k < bound := by
  intro c hc
  obtain ⟨k, hk, hlt⟩ := Chance.below_of_fair (hkind.fair hc) h
  have hperform : (drawBelow bound).perform c = (.ok (k : Int), (c.below bound).2) := by
    rw [← hk]
    rfl
  exact Act.ends_of_perform hperform ⟨hkind.below hc bound, k, rfl, hlt⟩

/-- A choice between several values does not fail. -/
theorem lands_choose {xs : List α} (h : xs ≠ []) : Lands kind (choose xs) fun a => a ∈ xs := by
  unfold choose
  rw [if_neg (by simpa using h)]
  refine lands_bind (lands_drawBelow hkind (List.length_pos_iff.mpr h)) fun n hn => ?_
  obtain ⟨k, rfl, hk⟩ := hn
  exact (lands_atPlace hk).imp fun a ha => ha ▸ List.getElem_mem hk

theorem lands_shuffleUpTo : ∀ (i : Nat) {xs : List α}, i < xs.length ∨ i = 0 →
    Lands kind (shuffleUpTo i xs) fun _ => True
  | 0, _, _ => lands_pure True.intro
  | i + 1, xs, h => by
    have hi : i + 1 < xs.length := h.resolve_right (Nat.succ_ne_zero i)
    refine lands_bind (lands_drawBelow hkind (Nat.succ_pos _)) fun n hn => ?_
    obtain ⟨k, rfl, hk⟩ := hn
    have hexchange : Lands kind (exchange xs (i + 1) (k : Int)) fun _ => True :=
      lands_bind (lands_atPlace hi) fun _ _ =>
        lands_bind (lands_atPlace (by omega)) fun _ _ => lands_pure True.intro
    refine lands_bind (hexchange.returns (returns_exchange xs (i + 1) k)) fun ys hys => ?_
    have hlength := hys.length_eq
    exact lands_shuffleUpTo i (Or.inl (by omega))

/-- A list can always be put in random order. -/
theorem lands_shuffle (xs : List α) : Lands kind (shuffle xs) fun ys => ys.Perm xs :=
  (lands_shuffleUpTo hkind _ (by omega)).returns (returns_shuffle xs)

end Lasting

end Lands

/-! ## 4. What an act yields -/

section Yields

variable {α β : Type}

/-- An act that never fails on a proper source and leaves a proper one, with values of a kind. -/
def Yields (x : Luck ℝ α) (post : α → Prop) : Prop :=
  ∀ c : Chance ℝ, c.Proper → Act.Ends x c (fun a c' => c'.Proper ∧ post a) Act.never

variable {post : α → Prop}

theorem yields_pure {a : α} (h : post a) : Yields (pure a) post := lands_pure h

theorem yields_bind {x : Luck ℝ α} {f : α → Luck ℝ β} {post' : β → Prop} (hx : Yields x post)
    (hf : ∀ a, post a → Yields (f a) post') : Yields (x >>= f) post' := lands_bind hx hf

theorem Yields.imp {x : Luck ℝ α} {post' : α → Prop} (h : Yields x post)
    (hp : ∀ a, post a → post' a) : Yields x post' := Lands.imp h hp

theorem yields_ok {x : Except Fault α} {a : α} (hx : x = .ok a) (h : post a) :
    Yields (Act.ofExcept x) post := lands_ok hx h

/-- What is known of a value wherever an act starts is known of what it yields. -/
theorem Yields.returns {x : Luck ℝ α} {post' : α → Prop} (h : Yields x post)
    (hr : Act.Returns x post') : Yields x post' := Lands.returns h hr

theorem yields_drawOne : Yields drawOne fun _ => True := lands_drawOne Chance.lasting_proper

theorem yields_roll (p : ℝ) : Yields (roll p) fun _ => True := lands_roll Chance.lasting_proper p

/-- What has no chance does not happen. -/
theorem yields_roll_zero : Yields (roll (0 : ℝ)) fun b => b = false := fun _ hc =>
  ⟨hc.draw, decide_eq_false (not_lt.mpr hc.draw_nonneg)⟩

/-- What is certain happens. -/
theorem yields_roll_one {p : ℝ} (h : 1 ≤ p) : Yields (roll p) fun b => b = true := fun _ hc =>
  ⟨hc.draw, decide_eq_true (hc.draw_lt_one.trans_le h)⟩

theorem yields_drawBelow {bound : Nat} (h : 0 < bound) :
    Yields (drawBelow bound) fun n => ∃ k : Nat, n = k ∧ k < bound :=
  lands_drawBelow Chance.lasting_proper h

/-! ## 5. Weighted choices -/

theorem placeAbove_le (mark : ℝ) (totals : List ℝ) : ∀ {low high : Nat}, low ≤ high →
    placeAbove mark totals low high ≤ high := by
  intro low high
  induction h : high - low using Nat.strong_induction_on generalizing low high with
  | _ n ih =>
    intro hle
    unfold placeAbove
    split
    · simp only
      split
      · have := ih ((low + high) / 2 - low) (by omega) rfl (by omega)
        omega
      · exact ih (high - ((low + high) / 2 + 1)) (by omega) rfl (by omega)
    · exact hle

/-- The last of the running totals on top of something positive is positive. -/
theorem getLast?_go_pos : ∀ (ws : List ℝ) {total : ℝ}, 0 < total → (∀ w ∈ ws, 0 < w) →
    ∃ sum, (total :: runningTotals.go total ws).getLast? = some sum ∧ 0 < sum
  | [], total, h, _ => ⟨total, rfl, h⟩
  | w :: ws, total, h, hws => by
    have hw : 0 < w := hws w List.mem_cons_self
    obtain ⟨sum, hsum, hpos⟩ := getLast?_go_pos ws (add_pos h hw)
      fun v hv => hws v (List.mem_cons_of_mem w hv)
    exact ⟨sum, by rw [runningTotals.go, List.getLast?_cons_cons, hsum], hpos⟩

/-- **One of several values with positive weights.** -/
theorem yields_pickWeighted {weight : α → ℝ} {xs : List α} (hne : xs ≠ [])
    (hpos : ∀ x ∈ xs, 0 < weight x) : Yields (pickWeighted weight xs) fun a => a ∈ xs := by
  obtain ⟨sum, hsum, hlt⟩ : ∃ sum, (runningTotals (xs.map weight)).getLast? = some sum ∧
      0 < sum := by
    cases xs with
    | nil => exact absurd rfl hne
    | cons x rest =>
      refine getLast?_go_pos (rest.map weight) (hpos x List.mem_cons_self) fun w hw => ?_
      obtain ⟨y, hy, rfl⟩ := List.mem_map.mp hw
      exact hpos y (List.mem_cons_of_mem x hy)
  have hlength := List.length_pos_iff.mpr hne
  have hzero : ¬ sum ≤ (0.0 : ℝ) := by
    intro hle
    have : (0.0 : ℝ) = 0 := by norm_num
    linarith
  unfold pickWeighted
  simp only [hsum, if_neg hzero, Scalar.isFinite_real, Bool.not_true, Bool.false_eq_true,
    if_false]
  refine yields_bind yields_drawOne fun x _ => ?_
  have hle := placeAbove_le (x * sum) (runningTotals (xs.map weight)) (Nat.zero_le (xs.length - 1))
  have hlt := Nat.lt_of_le_of_lt hle (Nat.sub_lt hlength Nat.one_pos)
  rw [List.getElem?_eq_getElem hlt]
  exact yields_pure (List.getElem_mem hlt)

end Yields

/-! ## 6. Dreams -/

namespace Taxonomy

/-- Every kind of bread has its bread. -/
theorem forall₂_ofKinds : ∀ {kinds : List Ingredient} {breads : List Bread},
    Bread.ofKinds kinds = .ok breads →
      List.Forall₂ (fun kind b => Bread.ofKind kind = .ok b) kinds breads
  | [], breads, h => by
    cases h
    exact .nil
  | kind :: rest, breads, h => by
    unfold Bread.ofKinds at h
    cases hkind : Bread.ofKind kind with
    | error e =>
      rw [hkind] at h
      cases h
    | ok bread =>
      cases hrest : Bread.ofKinds rest with
      | error e =>
        rw [hkind, hrest] at h
        cases h
      | ok more =>
        rw [hkind, hrest] at h
        cases h
        exact .cons hkind (forall₂_ofKinds hrest)

/-- What a bread is made of. -/
theorem ofKind_ok {kind : Ingredient} {b : Bread} (h : Bread.ofKind kind = .ok b) :
    ∃ bottom top more, kind.kids = bottom :: top :: more ∧ b = (bottom.leaf, top.leaf) := by
  unfold Bread.ofKind at h
  split at h
  · rename_i bottom top more hkids
    cases h
    exact ⟨bottom, top, more, hkids, rfl⟩
  · cases h

/-- The category of breads is below the root, it is a category, and each of its kinds has its
bread. -/
theorem exists_base_breads (t : Taxonomy) : ∃ base,
    t.root.kids.find? (·.name == baseName) = some base ∧ base.isLeaf = false ∧
      List.Forall₂ (fun kind b => Bread.ofKind kind = .ok b) base.kids t.breads := by
  have h := t.breads_eq
  unfold Bread.ofTree at h
  split at h
  · cases h
  · rename_i base hbase
    split at h
    · cases h
    · rename_i hleaf
      exact ⟨base, hbase, by simpa using hleaf, forall₂_ofKinds h⟩

/-- **There is always some bread.** -/
theorem breads_ne_nil (t : Taxonomy) : t.breads ≠ [] := by
  obtain ⟨base, -, hleaf, hbreads⟩ := t.exists_base_breads
  intro hnil
  rw [hnil, List.forall₂_nil_right_iff] at hbreads
  rw [Ingredient.isLeaf, hbreads] at hleaf
  cases hleaf

section Dreams

variable {R : Type} [Scalar R] {kind : Chance R → Prop} (hkind : Chance.Lasting kind)

include hkind

theorem lands_fill (pool : List Ingredient) (fillings : Int) :
    ∀ (attempts : Nat) (chosen : List Ingredient),
      Lands kind (fill pool fillings attempts chosen) fun _ => True
  | 0, chosen => lands_pure True.intro
  | attempts + 1, chosen => by
    have hfill := lands_fill pool fillings attempts
    unfold fill
    split
    · exact lands_pure True.intro
    · rename_i h
      have hpool : pool ≠ [] := fun hnil => h (Or.inl (by simp [hnil]))
      refine lands_bind (lands_choose hkind hpool) fun candidate _ => ?_
      split
      · refine lands_bind (lands_roll hkind _) fun survives _ => ?_
        split <;> exact hfill _
      · exact hfill _

/-- After its bread is chosen, nothing keeps a sandwich from being made. -/
theorem lands_randomSandwich_bread (t : Taxonomy) (fillings : Int)
    (banned required : List Ingredient) {fits : Bread → Prop}
    (h : Lands kind t.randomBread fits) :
    Lands kind (t.randomSandwich fillings banned required) fun s =>
      ∃ b, fits b ∧ b.1 ∈ s.ingredients ∧ b.2 ∈ s.ingredients := by
  refine lands_bind h fun b hb => ?_
  refine lands_bind (lands_fill hkind _ _ _ _) fun chosen _ => ?_
  refine lands_bind (lands_shuffle hkind chosen) fun middle _ => ?_
  exact lands_bind (lands_choose hkind (by decide)) fun _ _ =>
    lands_pure ⟨b, hb, by simp, by simp⟩

/-- **A random sandwich can always be made**, and has some bread at least. -/
theorem lands_randomSandwich (t : Taxonomy) (fillings : Int) (banned required : List Ingredient) :
    Lands kind (t.randomSandwich fillings banned required) fun s => s.ingredients ≠ [] :=
  (lands_randomSandwich_bread hkind t fillings banned required
    (lands_choose hkind t.breads_ne_nil)).imp fun _ ⟨_, _, hbottom, _⟩ => List.ne_nil_of_mem hbottom

end Dreams

end Taxonomy

namespace Order

section

variable {R : Type} [Scalar R] {kind : Chance R → Prop} (hkind : Chance.Lasting kind)

include hkind

theorem lands_rollPlanned (p : Personality R) : ∀ favorites : List (Preference R),
    Lands kind (rollPlanned p favorites) fun _ => True
  | [] => lands_pure True.intro
  | _ :: rest => lands_bind (lands_roll hkind _) fun _ _ =>
      lands_bind (lands_rollPlanned p rest) fun _ _ => lands_pure True.intro

/-- A dream with a finite number of fillings is as a random sandwich is. -/
theorem lands_dream {t : Taxonomy} {p : Personality R} {least most fillings : Int}
    {post : Sandwich → Prop} (hfillings : fillingsFor p least most = .ok fillings)
    (h : ∀ required, Lands kind
      (t.randomSandwich fillings (p.allergies.map (·.ingredient)) required) post) :
    Lands kind (dream t p least most) post :=
  lands_bind (lands_ok hfillings rfl) fun _ hn =>
    lands_bind (lands_rollPlanned hkind p p.favorites) fun _ _ => hn ▸ h _

end

/-- **Every customer dreams of something.** -/
theorem yields_dream (t : Taxonomy) (p : Personality ℝ) (least most : Int) :
    Yields (dream t p least most) fun s => s.ingredients ≠ [] :=
  lands_dream Chance.lasting_proper rfl fun _ =>
    t.lands_randomSandwich Chance.lasting_proper _ _ _

end Order

end DeliTalk
