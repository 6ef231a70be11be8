import DeliTalk.Proofs.Luck

/-!
# What a customer may pick

A customer goes down a cascade of steps and asks for what the first of them comes to. A step looks at
the wishes, at what came and at the allergies, and rolls. Whether it comes to something is up to the
rolls; what it may come to is not.

* `Order.Removal`, `Earlier`, `Safety`, `Onward`: what each step may ask for.
* `Order.lands_askRemoval`, `lands_askEarlier`, `lands_askSafety`, `returns_askNext`: that it asks
  for nothing else.
* `Order.Picked`: what the cascade may ask for, and the order it leaves.
* `Order.ends_pick_picked`: whatever is picked.
-/

namespace DeliTalk

open Act

namespace Order

/-! ## 1. What the steps may ask for -/

/-- What there is too much of, to be taken off, perhaps for good. -/
inductive Removal (desired result : Sandwich) : Operation → Prop where
  | once {i : Ingredient} (first : firstExtra? desired result = some i) :
      Removal desired result (.remove i)
  | ban {i : Ingredient} (first : firstExtra? desired result = some i) :
      Removal desired result (.persist (.remove i))

/-- The first open wish before the next one, next to what is there or on top. -/
inductive Earlier (ws : List Wish) (next : Nat) : Operation → Prop where
  | placed {k : Nat} {w : Wish} (first : (ws.take next).findIdx? (·.isOpen) = some k)
      (wish : ws[k]? = some w) : Earlier ws next (.add w.ingredient (placement ws k))
  | top {k : Nat} {w : Wish} (first : (ws.take next).findIdx? (·.isOpen) = some k)
      (wish : ws[k]? = some w) : Earlier ws next (.add w.ingredient .top)

/-- The first thing that an allergy covers, to be taken off. -/
inductive Safety {R : Type} (allergies : List (Preference R)) (result : Sandwich) :
    Operation → Prop where
  | allergen {a : Preference R} {i : Ingredient} (allergy : a ∈ allergies)
      (first : result.ingredients.find? a.ingredient.includes = some i) :
      Safety allergies result (.remove i)

/-- The wish to ask for: the question for it, several of it, or one. -/
inductive Onward (o : Order) (result : Sandwich) (ws : List Wish) (next : Nat) :
    Operation → Prop where
  | question {k : Nat} {w : Wish} (wanted : wanted? ws next = some k) (wish : ws[k]? = some w)
      (unsettled : (o.desired.ensures w.ingredient || result.ensures w.ingredient ||
        o.justAsked w.ingredient) = false) : Onward o result ws next (.checkFor w.ingredient)
  | several {k n : Nat} {w : Wish} (wanted : wanted? ws next = some k) (wish : ws[k]? = some w)
      (run : 1 < runLength ws k w.ingredient) (pos : 1 ≤ n)
      (count : (n : Int) = min (runLength ws k w.ingredient : Int) o.maxCount) :
      Onward o result ws next (.repeated n (.add w.ingredient .top))
  | one {k : Nat} {w : Wish} (wanted : wanted? ws next = some k) (wish : ws[k]? = some w) :
      Onward o result ws next (.add w.ingredient .top)

/-- An order that waits for the answer to a question. -/
def awaits (o : Order) : Operation → Order
  | .checkFor i => { o with pending := some i }
  | _ => o

/-- What may be picked in view of a result, and the order it leaves. Some of the allergies are
avoided, and before the last step the wishes may have changed. -/
inductive Picked {R : Type} (allergies : List (Preference R)) (o : Order) (result : Sandwich) :
    Operation → Order → Prop where
  | removal {x : Operation} (h : Removal o.desired result x) : Picked allergies o result x o
  | earlier {avoided : List (Preference R)} {next : Nat} {x : Operation}
      (h : Earlier (Wish.listOf (anyIncludes avoided) o.desired result) next x) :
      Picked allergies o result x o
  | safety {x : Operation} (h : Safety allergies result x) : Picked allergies o result x o
  | onward {avoided : List (Preference R)} {desired : Sandwich} {next : Nat} {x : Operation}
      (h : Onward { o with desired := desired } result
        (Wish.listOf (anyIncludes avoided) desired result) next x) :
      Picked allergies o result x (awaits { o with desired := desired } x)

end Order

/-! ## 2. The steps -/

/-- What never fails, whatever the source is, returns what it lands on. -/
theorem Lands.returns_any {R α : Type} {x : Luck R α} {post : α → Prop}
    (h : Lands (fun _ => True) x post) : Returns x post := fun c =>
  ((h c True.intro).imp fun _ _ h => h.2).sure

/-- After a roll, whatever it gives. -/
theorem lands_after_roll {R α : Type} [Scalar R] {kind : Chance R → Prop}
    (hdraw : ∀ {c : Chance R}, kind c → kind c.draw.2) {p : R} {f : Bool → Luck R α}
    {post : α → Prop} (hf : ∀ b, Lands kind (f b) post) : Lands kind (roll p >>= f) post := by
  have hroll : Lands kind (roll p) fun _ => True := fun c hc => ⟨hdraw hc, True.intro⟩
  exact lands_bind hroll fun b _ => hf b

namespace Order

/-- What is known of something that is asked for, if anything is. -/
theorem forall_mem_some {α : Type} {post : α → Prop} {a : α} (h : post a) : ∀ x ∈ some a, post x := by
  rintro _ ⟨⟩
  exact h

section Steps

variable {R : Type} [Scalar R]

section Rolls

variable {kind : Chance R → Prop} (hdraw : ∀ {c : Chance R}, kind c → kind c.draw.2)

include hdraw

theorem lands_rollAvoided : ∀ allergies : List (Preference R),
    Lands kind (rollAvoided allergies) fun _ => True
  | [] => lands_pure True.intro
  | _ :: rest => lands_after_roll hdraw fun _ =>
    lands_bind (lands_rollAvoided rest) fun _ _ => lands_pure True.intro

theorem lands_askRemoval (p : Personality R) (desired result : Sandwich) :
    Lands kind (askRemoval p desired result) fun a => ∀ x ∈ a, Removal desired result x := by
  unfold askRemoval
  split
  · exact lands_pure nofun
  · rename_i i hi
    refine lands_after_roll hdraw fun shy => ?_
    split
    · exact lands_pure nofun
    · refine lands_after_roll hdraw fun adverb => ?_
      split
      · exact lands_pure (forall_mem_some (.ban hi))
      · exact lands_pure (forall_mem_some (.once hi))

theorem lands_askEarlier (p : Personality R) (ws : List Wish) (next : Nat) :
    Lands kind (askEarlier p ws next) fun a => ∀ x ∈ a, Earlier ws next x := by
  unfold askEarlier
  split
  · exact lands_pure nofun
  · rename_i k hk
    split
    · exact lands_pure nofun
    · rename_i w hw
      refine lands_after_roll hdraw fun shy => ?_
      split
      · exact lands_pure nofun
      · refine lands_after_roll hdraw fun placed => ?_
        split
        · exact lands_pure (forall_mem_some (.placed hk hw))
        · refine lands_after_roll hdraw fun sensitive => ?_
          split
          · exact lands_pure nofun
          · exact lands_pure (forall_mem_some (.top hk hw))

/-- Whichever allergies are left to look at. -/
theorem lands_askSafety (p : Personality R) (result : Sandwich) {allergies : List (Preference R)} :
    ∀ {left : List (Preference R)}, left ⊆ allergies →
      Lands kind (askSafety p result left) fun a => ∀ x ∈ a, Safety allergies result x
  | [], _ => lands_pure nofun
  | a :: rest, hsub => by
    have hrest := lands_askSafety p result (List.subset_of_cons_subset hsub)
    unfold askSafety
    split
    · exact hrest
    · rename_i i hi
      refine lands_after_roll hdraw fun severe => ?_
      split
      · refine lands_after_roll hdraw fun shy => ?_
        split
        · exact hrest
        · refine lands_after_roll hdraw fun adverb => ?_
          split
          · exact lands_pure (forall_mem_some (.allergen (hsub List.mem_cons_self) hi))
          · exact hrest
      · exact hrest

end Rolls

omit [Scalar R] in
/-- Several at once are those in a row, or as many as may be asked for. -/
theorem severalAtOnce_spec {o : Order} {run : Nat} {x y : Operation}
    (h : o.severalAtOnce run x = .ok y) :
    ∃ n : Nat, 1 ≤ n ∧ (n : Int) = min (run : Int) o.maxCount ∧ y = .repeated n x := by
  unfold severalAtOnce at h
  simp only at h
  split at h
  · cases h
  · cases h
    exact ⟨_, by omega, Int.toNat_of_nonneg (by omega), rfl⟩

theorem returns_askNext (p : Personality R) (o : Order) (result : Sandwich) (ws : List Wish)
    (next : Nat) :
    Returns (askNext p o result ws next) fun a => ∀ x ∈ a, Onward o result ws next x := by
  unfold askNext
  split
  · exact returns_pure nofun
  · rename_i k hk
    split
    · exact returns_pure nofun
    · rename_i w hw
      have hsettled : Returns (pure false : Luck R Bool) fun ask => ask = true →
          (o.desired.ensures w.ingredient || result.ensures w.ingredient ||
            o.justAsked w.ingredient) = false := returns_pure nofun
      have hseveral : 1 < runLength ws k w.ingredient → Returns (roll p.language.numbers : Luck R Bool)
          fun several => several = true → 1 < runLength ws k w.ingredient :=
        fun hrun => (returns_any _).imp fun _ _ _ => hrun
      simp only
      refine returns_branch (fun _ => hsettled)
        (fun hopen => (returns_any _).imp fun _ _ _ => by simpa using hopen) fun ask hask => ?_
      split
      · rename_i hyes
        exact returns_pure (forall_mem_some (.question hk hw (hask hyes)))
      · refine returns_branch hseveral (fun _ => returns_pure nofun) fun several hrun => ?_
        split
        · rename_i hyes
          refine returns_bind (returns_ofExcept fun x => severalAtOnce_spec) fun x hx => ?_
          obtain ⟨n, hpos, hcount, rfl⟩ := hx
          exact returns_pure (forall_mem_some (.several hk hw (hrun hyes) hpos hcount))
        · exact returns_pure (forall_mem_some (.one hk hw))

end Steps

/-! ## 3. The cascade -/

section Cascade

variable {R : Type} {t : Table R} {result : Sandwich}

/-- An act of luck at a table leaves the order as it is. -/
theorem ends_lucky_order {α : Type} {x : Luck R α} {post : α → Prop} (h : Returns x post)
    (t : Table R) :
    Ends (Table.lucky x) t (fun a t' => post a ∧ t'.order = t.order) fun _ _ => True := by
  unfold Table.lucky Mind.lucky
  rw [ends_on, ends_on]
  exact (h _).imp fun a c ha => ⟨ha, rfl⟩

/-- An answer is the end; without one the next step starts from the same order. -/
theorem ends_firstOf_order {x : Luck R (Option Operation)} {y : Act (Table R) (Option Operation)}
    {post : Operation → Order → Prop}
    (hx : Lands (fun _ => True) x fun a => ∀ z ∈ a, post z t.order)
    (hy : ∀ t' : Table R, t'.order = t.order →
      Ends y t' (fun a t'' => ∀ z ∈ a, post z t''.order) fun _ _ => True) :
    Ends (firstOf (Table.lucky x) y) t (fun a t' => ∀ z ∈ a, post z t'.order) fun _ _ => True := by
  unfold firstOf
  rw [ends_bind]
  refine (ends_lucky_order hx.returns_any t).imp fun a t' h => ?_
  cases a with
  | some x =>
    rw [← h.2] at h
    exact h.1
  | none => exact hy t' h.2

variable [Scalar R]

/-- The last steps ask for the next wish, whatever the wishes are after the impulse. -/
theorem ends_askOnward_picked (p : Personality R) (allergies avoided : List (Preference R))
    (next : Nat) :
    Ends (askOnward p avoided result next) t
      (fun a t' => ∀ x ∈ a, Picked allergies t.order result x t'.order) fun _ _ => True := by
  unfold askOnward
  rw [ends_bind, ends_get, ends_bind]
  refine (ends_lucky_order (returns_any _) t).imp fun a t₁ _ => ?_
  simp only [Table.reorder, ends_bind, ends_modify]
  refine (ends_lucky_order (returns_askNext p _ _ _ _) _).imp fun answer t₂ h => ?_
  obtain ⟨honward, horder⟩ := h
  split
  · simp only [ends_bind, ends_modify, ends_pure, horder]
    exact forall_mem_some (.onward (honward _ rfl))
  · rename_i hnoquestion
    rw [ends_pure, horder]
    rintro x ⟨⟩
    have hawaits : ∀ o : Order, awaits o x = o := by
      intro o
      cases x with
      | checkFor i => exact absurd rfl (hnoquestion i)
      | _ => rfl
    have hpicked : Picked allergies t.order result x (awaits { t.order with desired := a.1 } x) :=
      .onward (honward x rfl)
    rwa [hawaits] at hpicked

/-- **Whatever is picked**, something is missing, and one of the steps asks for it. -/
theorem ends_pick_picked (result : Sandwich) (t : Table R) :
    Ends (pick result) t (fun a t' => ∀ x ∈ a, isMissing t.order.desired result = true ∧
      Picked t.mind.personality.allergies t.order result x t'.order) fun _ _ => True := by
  unfold pick
  rw [ends_bind, ends_get]
  simp only
  split
  · exact nofun
  · rename_i hmissing
    rw [ends_bind]
    refine (ends_lucky_order (returns_any _) t).imp fun avoided t₁ h₁ => ?_
    rw [ends_bind]
    refine (ends_lucky_order (returns_any _) t₁).imp fun forgot t₂ h₂ => ?_
    have horder : t₂.order = t.order := h₂.2.trans h₁.2
    rw [← horder] at hmissing ⊢
    refine Ends.imp (?_ : Ends _ t₂ (fun (a : Option Operation) t' => ∀ x ∈ a,
      Picked t.mind.personality.allergies t₂.order result x t'.order) fun _ _ => True)
      fun a t' h x hx => ⟨by simpa using hmissing, h x hx⟩
    refine ends_firstOf_order ((lands_askRemoval id _ _ _).imp fun a h x hx => .removal (h x hx))
      fun t₃ h₃ => ?_
    refine ends_firstOf_order ((lands_askEarlier id _ _ _).imp fun a h x hx => ?_) fun t₄ h₄ => ?_
    · rw [h₃]
      exact .earlier (h x hx)
    refine ends_firstOf_order ((lands_askSafety id _ _ (List.Subset.refl _)).imp fun a h x hx => ?_)
      fun t₅ h₅ => ?_
    · rw [h₄, h₃]
      exact .safety (h x hx)
    rw [← h₃, ← h₄, ← h₅]
    exact ends_askOnward_picked _ _ _ _

end Cascade

end Order

end DeliTalk
