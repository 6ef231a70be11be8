import DeliTalk.Proofs.Cascade
import DeliTalk.Proofs.Steady

/-!
# A customer's turn always comes to something

Whatever it wants and whatever it got, a customer picks its next request without a fault, and no
request is a goodbye. This takes a proper source of chance, counters that have logarithms, favorites
without negative weights, and words for at least one at once.

* `Table.Ready`: a customer at its table that can go on.
* `Order.ends_pick`: the cascade.
* `Order.ends_next`: a whole turn.
* `Order.perform_next_fault`: a first turn with a counter below minus one.
-/

namespace DeliTalk

open Act

/-! ## 1. Machines that can go on -/

/-- A machine whose counters have logarithms and whose draws lie between zero and one. -/
structure Mind.Ready (m : Mind ℝ) : Prop where
  counted : m.personality.Counted
  chance : m.chance.Proper

/-- No favorite has a negative weight. -/
def Personality.Fond (p : Personality ℝ) : Prop := ∀ f ∈ p.favorites, 0 ≤ f.severity

/-- A customer at its table that can go on. -/
structure Table.Ready (t : Table ℝ) : Prop where
  mind : t.mind.Ready
  fond : t.mind.personality.Fond
  count : 1 ≤ t.order.maxCount

/-- What is asked for, if anything, is no goodbye. -/
def Requests (a : Option Operation) : Prop := ∀ x ∈ a, x ≠ .finish

/-- What is asked for, if anything, is an edit. -/
def Edits (a : Option Operation) : Prop := ∀ x ∈ a, x.changesSandwich = true

/-- No edit is a goodbye. -/
theorem Edits.requests {a : Option Operation} (h : Edits a) : Requests a := by
  intro x hx hfinish
  have hchanges := h x hx
  rw [hfinish] at hchanges
  cases hchanges

theorem requests_none : Requests none := by
  intro x hx
  cases hx

theorem requests_some {x : Operation} (h : x ≠ .finish) : Requests (some x) := by
  intro y hy
  cases hy
  exact h

namespace Table

variable {α : Type} {t : Table ℝ}

/-- A table whose machine has another source of chance. -/
def withChance (t : Table ℝ) (c : Chance ℝ) : Table ℝ :=
  { t with mind := { t.mind with chance := c } }

theorem Ready.withChance (h : t.Ready) {c : Chance ℝ} (hc : c.Proper) : (t.withChance c).Ready :=
  ⟨⟨h.mind.counted, hc⟩, h.fond, h.count⟩

/-- An act of luck at a table, on a source of some kind. -/
theorem ends_lucky_kind {kind : Chance ℝ → Prop} {x : Luck ℝ α} {post : α → Prop}
    (h : Lands kind x post) (ht : kind t.mind.chance) :
    Ends (lucky x) t (fun a t' => post a ∧ ∃ c, kind c ∧ t' = t.withChance c) never := by
  unfold lucky Mind.lucky
  rw [ends_on, ends_on]
  exact (h _ ht).imp fun a c hc => ⟨hc.2, c, hc.1, rfl⟩

/-- An act of luck at a table. -/
theorem ends_lucky {x : Luck ℝ α} {post : α → Prop} (h : Yields x post)
    (ht : t.mind.chance.Proper) :
    Ends (lucky x) t (fun a t' => post a ∧ ∃ c, c.Proper ∧ t' = t.withChance c) never :=
  ends_lucky_kind h ht

/-- A table whose machine has another personality. -/
def withPersonality (t : Table ℝ) (p : Personality ℝ) : Table ℝ :=
  { t with mind := { t.mind with personality := p } }

theorem Ready.withPersonality (h : t.Ready) {p : Personality ℝ} (hp : p.Counted)
    (hf : p.favorites = t.mind.personality.favorites) : (t.withPersonality p).Ready := by
  refine ⟨⟨hp, h.mind.chance⟩, ?_, h.count⟩
  intro f hm
  have hm' : f ∈ p.favorites := hm
  rw [hf] at hm'
  exact h.fond f hm'

theorem Ready.withOrder (h : t.Ready) {o : Order} (ho : 1 ≤ o.maxCount) :
    ({ t with order := o } : Table ℝ).Ready := ⟨h.mind, h.fond, ho⟩

@[simp] theorem ends_change {f : Personality ℝ → Personality ℝ}
    {post : PUnit → Table ℝ → Prop} {flaw : Fault → Table ℝ → Prop} :
    Ends (change f) t post flaw ↔ post ⟨⟩ (t.withPersonality (f t.mind.personality)) := by
  unfold change minded Mind.change
  rw [ends_on]
  exact Iff.rfl

@[simp] theorem ends_reorder {f : Order → Order} {post : PUnit → Table ℝ → Prop}
    {flaw : Fault → Table ℝ → Prop} :
    Ends (reorder f) t post flaw ↔ post ⟨⟩ { t with order := f t.order } := Iff.rfl

/-- Skills fade at a table. -/
theorem ends_fade (h : t.mind.personality.Counted) (used : List Skill) :
    Ends (minded (Mind.fade used)) t (fun _ t' => ∃ l r,
      t' = t.withPersonality (t.mind.personality.practised l r) ∧
        (t.mind.personality.practised l r).Counted) never := by
  obtain ⟨l, r, hfade, hcounted⟩ := t.mind.personality.fade_of_counted h used
  refine ends_of_perform (a := ⟨⟩) (t := t.withPersonality (t.mind.personality.practised l r)) ?_
    ⟨l, r, rfl, hcounted⟩
  unfold minded Mind.fade
  rw [perform_on, perform_on, perform_ofStep, hfade]
  rfl

end Table

/-! ## 2. The steps of the cascade -/

namespace Order

variable {p : Personality ℝ}

theorem yields_rollAvoided (allergies : List (Preference ℝ)) :
    Yields (rollAvoided allergies) fun _ => True :=
  lands_rollAvoided Chance.Proper.draw allergies

theorem yields_rollShy (p : Personality ℝ) : Yields (rollShy p) fun _ => True := yields_roll _

theorem Removal.edits {desired result : Sandwich} {a : Option Operation}
    (h : ∀ x ∈ a, Removal desired result x) : Edits a := fun x hx => by
  cases h x hx <;> rfl

theorem Earlier.edits {ws : List Wish} {next : Nat} {a : Option Operation}
    (h : ∀ x ∈ a, Earlier ws next x) : Edits a := fun x hx => by
  cases h x hx <;> rfl

theorem Safety.edits {R : Type} {allergies : List (Preference R)} {result : Sandwich}
    {a : Option Operation} (h : ∀ x ∈ a, Safety allergies result x) : Edits a := fun x hx => by
  cases h x hx
  rfl

theorem yields_askRemoval (p : Personality ℝ) (desired result : Sandwich) :
    Yields (askRemoval p desired result) Edits :=
  (lands_askRemoval Chance.Proper.draw p desired result).imp fun _ => Removal.edits

theorem yields_askEarlier (p : Personality ℝ) (ws : List Wish) (next : Nat) :
    Yields (askEarlier p ws next) Edits :=
  (lands_askEarlier Chance.Proper.draw p ws next).imp fun _ => Earlier.edits

theorem yields_askSafety (p : Personality ℝ) (result : Sandwich)
    (allergies : List (Preference ℝ)) : Yields (askSafety p result allergies) Edits :=
  (lands_askSafety Chance.Proper.draw p result (List.Subset.refl allergies)).imp
    fun _ => Safety.edits

/-- Whatever is not disliked can be craved. -/
theorem weight_pos {favorites : List (Preference ℝ)} (h : ∀ f ∈ favorites, 0 ≤ f.severity) :
    ∀ f ∈ favorites, 0 < f.severity + (cravingFloor : ℝ) := by
  intro f hf
  have hfloor : (0 : ℝ) < cravingFloor := by
    unfold cravingFloor
    norm_num
  exact add_pos_of_nonneg_of_pos (h f hf) hfloor

theorem yields_crave {favorites : List (Preference ℝ)} (hne : favorites ≠ [])
    (hpos : ∀ f ∈ favorites, 0 ≤ f.severity) (desired : Sandwich) (next : Nat) :
    Yields (crave favorites desired next) fun _ => True := by
  unfold crave
  refine yields_bind (yields_pickWeighted hne (weight_pos hpos)) fun favorite _ => ?_
  split
  · exact yields_pure True.intro
  · simp only
    split
    · refine yields_bind (yields_drawBelow (by omega)) fun k _ => ?_
      exact yields_pure True.intro
    · exact yields_pure True.intro

theorem yields_impulse (h : p.Fond) (desired : Sandwich) (next : Nat) :
    Yields (impulse p desired next) fun _ => True := by
  unfold impulse
  split
  · exact yields_pure True.intro
  · rename_i hne
    refine yields_bind (yields_roll _) fun impulsive _ => ?_
    split
    · split
      · exact yields_pure True.intro
      · exact yields_crave (by simpa using hne) h desired next
    · exact yields_pure True.intro

theorem yields_severalAtOnce {o : Order} (h : 1 ≤ o.maxCount) {run : Nat} (hrun : 1 ≤ run)
    (x : Operation) :
    Yields (Act.ofExcept (o.severalAtOnce run x)) fun y => o.severalAtOnce run x = .ok y := by
  have hcount : ¬ min (run : Int) o.maxCount < 1 := by omega
  have hok : o.severalAtOnce run x = .ok (.repeated (min (run : Int) o.maxCount).toNat x) := by
    rw [severalAtOnce, if_neg hcount]
  exact yields_ok hok hok

/-- **A wish is asked for**: for the shy it is a question, otherwise one of it or several. -/
theorem yields_askNext_wanted {o : Order} (h : 1 ≤ o.maxCount) (result : Sandwich)
    {ws : List Wish} {next i : Nat} {w : Wish} (hwanted : wanted? ws next = some i)
    (hw : ws[i]? = some w) {shy : Bool → Prop} (hshy : Yields (rollShy p) shy)
    {post : Option Operation → Prop} (hquestion : shy true → post (some (.checkFor w.ingredient)))
    (hone : post (some (.add w.ingredient .top)))
    (hseveral : ∀ x, o.severalAtOnce (runLength ws i w.ingredient) (.add w.ingredient .top) =
      .ok x → post (some x)) :
    Yields (askNext p o result ws next) post := by
  have hsay : ∀ several : Bool, Yields (if several = true then do
        return some (← Act.ofExcept (o.severalAtOnce (runLength ws i w.ingredient)
          (.add w.ingredient .top)))
      else pure (some (.add w.ingredient .top))) post := by
    intro several
    split
    · refine yields_bind (yields_severalAtOnce h (Nat.le_add_right 1 _) _) fun x hx => ?_
      exact yields_pure (hseveral x hx)
    · exact yields_pure hone
  -- the same follows whether the roll was made or not
  have hask : ∀ ask : Bool, (ask = true → post (some (.checkFor w.ingredient))) →
      Yields (if ask = true then pure (some (.checkFor w.ingredient))
        else do
          let several ← if 1 < runLength ws i w.ingredient then roll p.language.numbers
            else pure false
          if several then
            return some (← Act.ofExcept (o.severalAtOnce (runLength ws i w.ingredient)
              (.add w.ingredient .top)))
          else return some (.add w.ingredient .top)) post := by
    intro ask hask
    split
    · exact yields_pure (hask ‹_›)
    · split
      · exact yields_bind (yields_roll _) fun several _ => hsay several
      · exact hsay false
  unfold askNext
  rw [hwanted]
  simp only [hw]
  split
  · exact hask false nofun
  · refine yields_bind hshy fun ask hshy => hask ask ?_
    rintro rfl
    exact hquestion hshy

theorem yields_askNext (p : Personality ℝ) {o : Order} (h : 1 ≤ o.maxCount) (result : Sandwich)
    (ws : List Wish) (next : Nat) : Yields (askNext p o result ws next) Requests := by
  cases hwanted : wanted? ws next with
  | none =>
    unfold askNext
    rw [hwanted]
    exact yields_pure requests_none
  | some i =>
    cases hw : ws[i]? with
    | none =>
      unfold askNext
      rw [hwanted]
      simp only [hw]
      exact yields_pure requests_none
    | some w =>
      refine yields_askNext_wanted h result hwanted hw (yields_rollShy p)
        (fun _ => requests_some (by simp)) (requests_some (by simp)) fun x hx => ?_
      obtain ⟨n, -, -, rfl⟩ := severalAtOnce_spec hx
      exact requests_some (by simp)

/-! ## 3. The cascade -/

variable {t : Table ℝ}

/-- What a step of the cascade leaves of a table: the machine but for its chance, and the history of
the order. -/
structure Keeps (t t' : Table ℝ) : Prop where
  ready : t'.Ready
  personality : t'.mind.personality = t.mind.personality
  history : t'.order.history = t.order.history

theorem Keeps.trans {t' t'' : Table ℝ} (h : Keeps t t') (h' : Keeps t' t'') : Keeps t t'' :=
  ⟨h'.ready, h'.personality.trans h.personality, h'.history.trans h.history⟩

/-- An act of luck in the cascade. -/
theorem ends_lucky {α : Type} {x : Luck ℝ α} {post : α → Prop} (h : Yields x post)
    (ht : t.Ready) : Ends (Table.lucky x) t (fun a t' => Keeps t t' ∧ post a) never := by
  refine (Table.ends_lucky h ht.mind.chance).imp ?_
  rintro a _ ⟨ha, c, hc, rfl⟩
  exact ⟨⟨ht.withChance hc, rfl, rfl⟩, ha⟩

theorem ends_lucky_edits {x : Luck ℝ (Option Operation)} (h : Yields x Edits) (ht : t.Ready) :
    Ends (Table.lucky x) t (fun a t' => Keeps t t' ∧ Requests a) never :=
  ends_lucky (h.imp fun _ => Edits.requests) ht

theorem ends_firstOf {x y : Act (Table ℝ) (Option Operation)}
    (hx : Ends x t (fun a t' => Keeps t t' ∧ Requests a) never)
    (hy : ∀ t', Keeps t t' → Ends y t' (fun a t'' => Keeps t' t'' ∧ Requests a) never) :
    Ends (firstOf x y) t (fun a t' => Keeps t t' ∧ Requests a) never := by
  unfold firstOf
  rw [ends_bind]
  refine hx.imp fun a t' h => ?_
  cases a with
  | some x => exact h
  | none => exact (hy t' h.1).imp fun a t'' h' => ⟨h.1.trans h'.1, h'.2⟩

theorem ends_askOnward (ht : t.Ready) (avoided : List (Preference ℝ)) (result : Sandwich)
    (next : Nat) : Ends (askOnward t.mind.personality avoided result next) t
      (fun a t' => Keeps t t' ∧ Requests a) never := by
  unfold askOnward
  rw [ends_bind, ends_get, ends_bind]
  refine (ends_lucky (yields_impulse ht.fond _ _) ht).imp fun a t' h => ?_
  obtain ⟨desired, next⟩ := a
  have hcount : 1 ≤ ({ t.order with desired := desired } : Order).maxCount := ht.count
  have ht' : ({ t' with order := { t.order with desired := desired } } : Table ℝ).Ready :=
    ⟨h.1.ready.mind, h.1.ready.fond, hcount⟩
  simp only [Table.reorder, ends_bind, ends_modify]
  refine (ends_lucky (yields_askNext t.mind.personality hcount result _ next) ht').imp
    fun a t'' h' => ?_
  have hkeeps : Keeps t t'' :=
    ⟨h'.1.ready, h'.1.personality.trans h.1.personality, h'.1.history⟩
  split
  · simp only [ends_bind, ends_modify, ends_pure]
    exact ⟨⟨⟨hkeeps.ready.mind, hkeeps.ready.fond, hkeeps.ready.count⟩, hkeeps.personality,
      hkeeps.history⟩, h'.2⟩
  · exact ⟨hkeeps, h'.2⟩

/-- **The cascade** always comes to an end, with no goodbye. -/
theorem ends_pick (ht : t.Ready) (result : Sandwich) :
    Ends (pick result) t (fun a t' => Keeps t t' ∧ Requests a) never := by
  unfold pick
  rw [ends_bind, ends_get]
  simp only
  split
  · exact ⟨⟨ht, rfl, rfl⟩, requests_none⟩
  · rw [ends_bind]
    refine (ends_lucky (yields_rollAvoided _) ht).imp fun avoided t₁ h₁ => ?_
    rw [ends_bind]
    refine (ends_lucky (yields_roll _) h₁.1.ready).imp fun forgot t₂ h₂ => ?_
    have h := h₁.1.trans h₂.1
    rw [← h.personality]
    refine (ends_firstOf (ends_lucky_edits (yields_askRemoval _ _ _) h.ready)
      fun t₃ h₃ => ?_).imp fun a t' h' => ⟨h.trans h'.1, h'.2⟩
    refine ends_firstOf (ends_lucky_edits (yields_askEarlier _ _ _) h₃.ready) fun t₄ h₄ => ?_
    refine ends_firstOf (ends_lucky_edits (yields_askSafety _ _ _) h₄.ready) fun t₅ h₅ => ?_
    rw [← ((h₃.trans h₄).trans h₅).personality]
    exact ends_askOnward h₅.ready _ _ _

/-! ## 4. A whole turn -/

/-- What is left of a table that can go on, with the same history. -/
def Goes (t t' : Table ℝ) : Prop := t'.Ready ∧ t'.order.history = t.order.history

theorem ends_learn (ht : t.Ready) (last : Operation) (result : Sandwich) :
    Ends (learn last result) t (fun _ t' => Goes t t') never := by
  unfold learn
  rw [ends_bind, ends_get]
  split
  · obtain ⟨l, r, hgrown, hcounted⟩ := t.mind.personality.upgrade_spec last.skills
    have ht' := ht.withPersonality (p := relieved (t.mind.personality.practised l r))
      (hcounted ht.mind.counted) rfl
    have ht'' := ht'.withOrder (o := { t.order with failures := 0 }) ht.count
    simp only [ends_bind, Table.ends_change, Table.ends_reorder, ends_get, hgrown]
    exact (ends_lucky (yields_roll _) ht'').imp fun polite t' h => ⟨h.1.ready, h.1.history⟩
  · split
    · simp only [ends_bind, Table.ends_change, Table.ends_reorder, ends_pure]
      have ht' := ht.withOrder (o := { t.order with failures := t.order.failures + 1 }) ht.count
      exact ⟨ht'.withPersonality ht.mind.counted rfl, rfl⟩
    · exact ⟨ht, rfl⟩

/-- Whether a turn ends as it should: what is said is no goodbye and is remembered. -/
def TurnEnds (a : Option Operation) (t : Table ℝ) : Prop :=
  t.Ready ∧ Requests a ∧ (a ≠ none → t.order.history ≠ [])

/-- What was said last can be taken back for an affirmation. -/
theorem exists_retract {o : Order} (h : o.history ≠ []) :
    ∃ rest, o.retract = .ok (.affirm, { o with history := .affirm :: rest }) := by
  obtain ⟨last, rest, hlast⟩ := List.exists_cons_of_ne_nil h
  refine ⟨rest, ?_⟩
  unfold retract
  rw [hlast]

theorem ends_ask (ht : t.Ready) {x : Operation} (hx : x ≠ .finish) (result : Sandwich) :
    Ends (ask x result) t TurnEnds never := by
  unfold ask
  rw [ends_bind, Table.ends_reorder]
  exact ⟨⟨ht.mind, ht.fond, ht.count⟩, requests_some hx, fun _ => by simp [archive]⟩

theorem ends_proceed (ht : t.Ready) (result : Sandwich) (used : List Skill) (polite : Bool) :
    Ends (proceed result used polite) t TurnEnds never := by
  unfold proceed
  rw [ends_bind]
  refine (Table.ends_fade ht.mind.counted used).imp fun _ t₁ h₁ => ?_
  obtain ⟨l, r, rfl, hcounted⟩ := h₁
  have ht₁ := ht.withPersonality hcounted rfl
  rw [ends_bind, ends_get]
  split
  · exact ⟨ht₁, requests_none, fun h => absurd rfl h⟩
  · split
    · exact ends_ask ht₁ (by simp) result
    · rw [ends_bind]
      refine (ends_pick ht₁ result).imp fun a t₂ h₂ => ?_
      cases a with
      | none => exact ⟨h₂.1.ready, requests_none, fun h => absurd rfl h⟩
      | some x => exact ends_ask h₂.1.ready (h₂.2 x rfl) result

/-- **A customer's turn always comes to something**, and never to a goodbye. -/
theorem ends_next (ht : t.Ready) (result : Sandwich) :
    Ends (next result) t TurnEnds never := by
  unfold next
  rw [ends_bind, ends_get]
  simp only
  split
  · split
    · exact ends_ask ht (by simp) result
    · rw [ends_bind]
      refine (ends_learn ht _ result).imp fun a t' h => ?_
      exact ends_proceed h.1 result a.1 a.2
  · exact ends_proceed ht result [] false

/-- **A first turn with a counter below minus one fails**: its logarithm does not exist. -/
theorem perform_next_fault (hflawed : ¬ t.mind.personality.Counted)
    (hhistory : t.order.history = []) (result : Sandwich) :
    ∃ t', (next result).perform t = (.error .noLogarithm, t') := by
  obtain ⟨s, hs⟩ := not_forall.mp hflawed
  obtain ⟨q, hq⟩ := Personality.fade_fault (lt_of_not_ge hs) (List.not_mem_nil : s ∉ [])
  refine ⟨t.withPersonality q, ?_⟩
  have hfade : (Table.minded (Mind.fade [])).perform t =
      (.error .noLogarithm, t.withPersonality q) := by
    unfold Table.minded Mind.fade
    rw [perform_on, perform_on, perform_ofStep, hq]
    rfl
  unfold next
  rw [perform_bind, perform_get]
  simp only [hhistory]
  unfold proceed
  rw [perform_bind, hfade]

end Order

end DeliTalk
