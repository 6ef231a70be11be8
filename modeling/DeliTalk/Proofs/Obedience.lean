import DeliTalk.Proofs.Incidents
import DeliTalk.Proofs.Reckoning
import Mathlib.Algebra.Order.BigOperators.Group.Finset

/-!
# A customer that always gets its way is soon content

Suppose a customer asks frankly and gets exactly what it asked for, every time. Each edit then
brings the sandwich closer to what is desired: what is taken off was too much, and what is put on
was lacking. So there are no more edits than the sandwich was off by, every one of them works, and
thanks are said at most once for each. In the end nothing is missing.

* `Sandwich.distance`: by how much a sandwich is off.
* `Order.Apt.closer`: what is asked for brings the sandwich closer.
* `Order.ends_pick_frank`: a frank customer asks for an edit as long as something is missing.
* `Order.Obeyed`: where some turns lead if the customer always gets what it asked for.
* `Order.obeyed_converges`: how long it takes, and what is there in the end.
-/

namespace DeliTalk

open Act

/-! ## 1. How far a sandwich is off -/

namespace Sandwich

variable {d s s' : Sandwich} {name : String}

/-- By how much a sandwich is off in one name. -/
def gap (d s : Sandwich) (name : String) : Nat := ((s.count name : Int) - d.count name).natAbs

/-- By how much a sandwich is off what is desired, all names together. -/
def distance (d s : Sandwich) : Nat := ∑ name ∈ (d.names ++ s.names).toFinset, gap d s name

/-- Only names that occur can be off. -/
theorem mem_of_gap (h : gap d s name ≠ 0) : name ∈ (d.names ++ s.names).toFinset := by
  rw [List.mem_toFinset, List.mem_append]
  by_contra hno
  rw [not_or] at hno
  have hd : d.count name = 0 := List.count_eq_zero.mpr hno.1
  have hs : s.count name = 0 := List.count_eq_zero.mpr hno.2
  exact h (by rw [gap, hd, hs]; rfl)

/-- It does not matter how many other names are looked at. -/
theorem distance_eq_sum {names : Finset String} (h : (d.names ++ s.names).toFinset ⊆ names) :
    distance d s = ∑ name ∈ names, gap d s name :=
  Finset.sum_subset h fun _ _ hno => by_contra fun hgap => hno (mem_of_gap hgap)

/-- A sandwich that is off less in one name and no more in any other is closer. -/
theorem distance_lt (name : String) (hle : ∀ other, gap d s' other ≤ gap d s other)
    (hlt : gap d s' name < gap d s name) : distance d s' < distance d s := by
  -- both distances are sums over the names on either sandwich
  let names := (d.names ++ s.names).toFinset ∪ (d.names ++ s'.names).toFinset
  have hmem : name ∈ names := Finset.mem_union_left _ (mem_of_gap (by omega))
  have hbefore : distance d s = ∑ other ∈ names, gap d s other :=
    distance_eq_sum Finset.subset_union_left
  have hafter : distance d s' = ∑ other ∈ names, gap d s' other :=
    distance_eq_sum Finset.subset_union_right
  rw [hbefore, hafter]
  exact Finset.sum_lt_sum (fun other _ => hle other) ⟨name, hmem, hlt⟩

/-- Some more of what is lacking brings a sandwich closer. -/
theorem distance_lt_of_more {n : Nat} (hpos : 1 ≤ n) (hlacks : s.count name + n ≤ d.count name)
    (hcount : ∀ other, s'.count other = s.count other + if name = other then n else 0) :
    distance d s' < distance d s := by
  refine distance_lt name (fun other => ?_) ?_
  · unfold gap
    rw [hcount]
    by_cases h : name = other
    · subst h
      rw [if_pos rfl]
      omega
    · rw [if_neg h]
      exact Nat.le_refl _
  · unfold gap
    rw [hcount, if_pos rfl]
    omega

/-- One less of what is too much brings a sandwich closer. -/
theorem distance_lt_of_less (hsurplus : d.count name < s.count name)
    (hcount : ∀ other, s'.count other + (if name = other then 1 else 0) = s.count other) :
    distance d s' < distance d s := by
  refine distance_lt name (fun other => ?_) ?_
  · have hother := hcount other
    unfold gap
    by_cases h : name = other
    · subst h
      rw [if_pos rfl] at hother
      omega
    · rw [if_neg h] at hother
      rw [← hother]
      exact Nat.le_refl _
  · have hname := hcount name
    rw [if_pos rfl] at hname
    unfold gap
    omega

end Sandwich

namespace Operation

variable {R : Type} {i : Ingredient} {s : Sandwich}

/-- How much there is of each name with some more of an ingredient on top. -/
theorem count_topped (s : Sandwich) (i : Ingredient) (n : Nat) (name : String) :
    (topped s i n).count name = s.count name + if i.name = name then n else 0 := by
  simp [topped, Sandwich.count, Sandwich.names, List.count_replicate]

/-- How much there is of each name without one of what is there. -/
theorem count_withoutFirst (h : i ∈ s.ingredients) (name : String) :
    (withoutFirst i s).count name + (if i.name = name then 1 else 0) = s.count name := by
  have hthere : s.contains i = true := List.any_eq_true.mpr ⟨i, h, beq_self_eq_true i.name⟩
  have hcount := (accounts_withoutFirst i s (Personality.dreamer : Personality ℝ)).count name
  rw [if_pos hthere] at hcount
  simpa [List.count_singleton] using hcount

end Operation

/-! ## 2. What is asked for brings the sandwich closer -/

namespace Order

variable {o : Order} {result : Sandwich}

/-- **What is apt brings a sandwich closer** to what is desired, if nothing on it is harmful and it
is no question. -/
theorem Apt.closer {x : Operation} (h : Apt ([] : List (Preference ℝ)) o result x)
    (hedit : x.changesSandwich = true) :
    o.desired.distance (x.imagine ℝ result) < o.desired.distance result := by
  cases h with
  | question => cases hedit
  | removal there unwanted =>
    have hsurplus := unwanted.resolve_right Bool.false_ne_true
    exact Sandwich.distance_lt_of_less hsurplus (Operation.count_withoutFirst there)
  | ban there surplus =>
    exact Sandwich.distance_lt_of_less surplus (Operation.count_withoutFirst there)
  | addition lacks place =>
    rename_i i r
    obtain ⟨place, -, hle, himagine⟩ := imagine_add (R := ℝ) i place
    refine Sandwich.distance_lt_of_more (Nat.le_refl 1) lacks fun other => ?_
    rw [himagine, Operation.count_insertIdx result i hle]
    simp [List.count_singleton]
  | several pos lacks =>
    rw [Operation.imagine_portion (.several _)]
    exact Sandwich.distance_lt_of_more pos lacks (Operation.count_topped result _ _)

end Order

/-! ## 3. What a frank customer picks -/

namespace Wish

/-- Where there is less of a name than desired, one of its wishes is not there. -/
theorem exists_absent {name : String} : ∀ {names available : List String},
    available.count name < names.count name →
      ∃ i : Nat, names[i]? = some name ∧ (presence names available)[i]? = some false
  | [], _, h => absurd h (Nat.not_lt_zero _)
  | head :: rest, available, h => by
    unfold presence
    split
    · rename_i hthere
      have hrest : (available.erase head).count name < rest.count name := by
        have hpos := List.count_pos_iff.mpr hthere
        rw [List.count_cons] at h
        rw [List.count_erase]
        by_cases heq : head = name
        · subst heq
          simp only [beq_self_eq_true, if_true] at h ⊢
          omega
        · simp only [beq_eq_false_iff_ne.mpr heq, Bool.false_eq_true, if_false] at h ⊢
          omega
      obtain ⟨i, hname, habsent⟩ := exists_absent hrest
      exact ⟨i + 1, hname, habsent⟩
    · by_cases heq : head = name
      · exact ⟨0, by rw [heq]; rfl, rfl⟩
      · rw [List.count_cons_of_ne heq] at h
        obtain ⟨i, hname, habsent⟩ := exists_absent h
        exact ⟨i + 1, hname, habsent⟩

/-- Where something is missing, one of the wishes is open, if none is passed over. -/
theorem exists_open {suppressed : Ingredient → Bool} {desired result : Sandwich}
    (hs : ∀ i, suppressed i = false) (h : Order.isMissing desired result = true) :
    ∃ w ∈ listOf suppressed desired result, w.isOpen = true := by
  obtain ⟨name, -, hlt⟩ := List.any_eq_true.mp h
  obtain ⟨k, hname, habsent⟩ := exists_absent (of_decide_eq_true hlt)
  rw [Sandwich.names, List.getElem?_map, Option.map_eq_some_iff] at hname
  obtain ⟨i, hi, -⟩ := hname
  have hget : (listOf suppressed desired result)[k]? = some ⟨i, false, suppressed i⟩ := by
    rw [listOf, List.getElem?_zipWith_eq_some]
    exact ⟨i, false, hi, habsent, rfl⟩
  exact ⟨_, List.mem_of_getElem? hget, by rw [isOpen, hs]; rfl⟩

end Wish

/-- Whether a machine without allergies never hesitates and follows no impulse. -/
structure Personality.Frank (p : Personality ℝ) : Prop where
  allergies : p.allergies = []
  shyness : p.shyness = 0
  spontaneity : p.spontaneity = 0

namespace Order

variable {t : Table ℝ}

/-- What comes of asking: an edit, and nothing changed but the source of chance. -/
def Insists (t : Table ℝ) (a : Option Operation) (t' : Table ℝ) : Prop :=
  (∃ x, a = some x ∧ x.changesSandwich = true) ∧ ∃ c, c.Proper ∧ t' = t.withChance c

/-- An edit ends the cascade; without one it goes on. -/
theorem ends_firstOf_edits {x : Luck ℝ (Option Operation)} (hx : Yields x Edits)
    (hc : t.mind.chance.Proper) {y : Act (Table ℝ) (Option Operation)}
    (hy : ∀ c : Chance ℝ, c.Proper → Ends y (t.withChance c) (Insists t) never) :
    Ends (firstOf (Table.lucky x) y) t (Insists t) never := by
  unfold firstOf
  rw [ends_bind]
  refine (Table.ends_lucky hx hc).imp ?_
  rintro a _ ⟨hedit, c, hc, rfl⟩
  cases a with
  | none => exact hy c hc
  | some x => exact ⟨⟨x, rfl, hedit x rfl⟩, c, hc, rfl⟩

/-- Where a wish is open, there is a wish to ask for. -/
theorem exists_wanted {ws : List Wish} (h : ∃ w ∈ ws, w.isOpen = true) (next : Nat) :
    ∃ i w, wanted? ws next = some i ∧ ws[i]? = some w := by
  have hfirst : ∃ i w, ws.findIdx? (·.isOpen) = some i ∧ ws[i]? = some w := by
    have hfound : (ws.findIdx? (·.isOpen)).isSome = true := by
      rw [List.findIdx?_isSome]
      exact List.any_eq_true.mpr h
    obtain ⟨i, hi⟩ := Option.isSome_iff_exists.mp hfound
    obtain ⟨hlt, -⟩ := List.findIdx?_eq_some_iff_getElem.mp hi
    exact ⟨i, ws[i], hi, List.getElem?_eq_getElem hlt⟩
  unfold wanted?
  split
  · rename_i w hw
    split
    · exact hfirst
    · exact ⟨next, w, rfl, hw⟩
  · exact hfirst

/-- **The next wish** is asked for straight away. -/
theorem yields_askNext_frank {p : Personality ℝ} (h : p.shyness = 0) {o : Order}
    (hcount : 1 ≤ o.maxCount) (result : Sandwich) {ws : List Wish}
    (hopen : ∃ w ∈ ws, w.isOpen = true) (next : Nat) :
    Yields (askNext p o result ws next) fun a => ∃ x, a = some x ∧ x.changesSandwich = true := by
  obtain ⟨i, w, hwanted, hw⟩ := exists_wanted hopen next
  refine yields_askNext_wanted hcount result hwanted hw (yields_rollShy_bold h) nofun
    ⟨_, rfl, rfl⟩ fun x hx => ?_
  obtain ⟨n, -, -, rfl⟩ := severalAtOnce_spec hx
  exact ⟨_, rfl, rfl⟩

/-- The last steps of a frank customer: no impulse, and the next wish. -/
theorem ends_askOnward_frank (h : t.mind.personality.Frank) (hc : t.mind.chance.Proper)
    (hcount : 1 ≤ t.order.maxCount) {result : Sandwich}
    (hmissing : isMissing t.order.desired result = true) (next : Nat) :
    Ends (askOnward t.mind.personality [] result next) t (Insists t) never := by
  unfold askOnward
  rw [ends_bind, ends_get, ends_bind]
  refine (Table.ends_lucky (yields_impulse_composed h.spontaneity) hc).imp ?_
  rintro _ _ ⟨rfl, c, hc', rfl⟩
  simp only
  rw [ends_bind, Table.ends_reorder, ends_bind]
  have hnone : ∀ i, anyIncludes ([] : List (Preference ℝ)) i = false := fun _ => rfl
  have hopen := Wish.exists_open hnone hmissing
  refine (Table.ends_lucky (yields_askNext_frank h.shyness hcount result hopen next) hc').imp ?_
  rintro _ _ ⟨⟨x, rfl, hedit⟩, c', hc'', rfl⟩
  split
  · rename_i hquestion
    cases hquestion
    cases hedit
  · exact ⟨⟨x, rfl, hedit⟩, c', hc'', rfl⟩

/-- **A frank customer** has nothing to ask for if nothing is missing, and otherwise asks for an
edit. -/
theorem ends_pick_frank (h : t.mind.personality.Frank) (hc : t.mind.chance.Proper)
    (hcount : 1 ≤ t.order.maxCount) (result : Sandwich) :
    Ends (pick result) t (fun a t' =>
      (isMissing t.order.desired result = false ∧ a = none ∧ t' = t) ∨ Insists t a t') never := by
  unfold pick
  rw [ends_bind, ends_get]
  simp only
  split
  · rename_i henough
    exact Or.inl ⟨by simpa using henough, rfl, rfl⟩
  · rename_i hmissing
    have hmissing : isMissing t.order.desired result = true := by simpa using hmissing
    refine Ends.imp (?_ : Ends _ t (Insists t) never) fun _ _ => Or.inr
    rw [h.allergies, ends_bind]
    have hnone : Yields (rollAvoided ([] : List (Preference ℝ))) (· = []) := yields_pure rfl
    refine (Table.ends_lucky hnone hc).imp ?_
    rintro _ _ ⟨rfl, c₁, hc₁, rfl⟩
    rw [ends_bind]
    refine (Table.ends_lucky (yields_roll _) hc₁).imp ?_
    rintro forgot _ ⟨-, c₂, hc₂, rfl⟩
    -- something too much comes first, then something earlier; nothing is harmful
    refine ends_firstOf_edits (t := t.withChance c₂) (yields_askRemoval _ _ _) hc₂
      fun c₃ hc₃ => ?_
    refine ends_firstOf_edits (t := t.withChance c₃) (yields_askEarlier _ _ _) hc₃
      fun c₄ hc₄ => ?_
    refine ends_firstOf_edits (t := t.withChance c₄) (yields_askSafety _ _ _) hc₄
      fun c₅ hc₅ => ?_
    exact ends_askOnward_frank (t := t.withChance c₅) h hc₅ hcount hmissing _

end Order

/-! ## 4. A turn of a customer that got its way -/

/-- A frank customer at its table that desires something, can go on and has not failed. -/
structure Table.Trusts (d : Sandwich) (t : Table ℝ) : Prop where
  frank : t.mind.personality.Frank
  ready : t.mind.Ready
  desired : t.order.desired = d
  failures : t.order.failures = 0
  most : 1 ≤ t.order.maxFailures
  count : 1 ≤ t.order.maxCount

namespace Table.Trusts

variable {d : Sandwich} {t : Table ℝ}

theorem withChance (h : t.Trusts d) {c : Chance ℝ} (hc : c.Proper) : (t.withChance c).Trusts d :=
  ⟨h.frank, ⟨h.ready.counted, hc⟩, h.desired, h.failures, h.most, h.count⟩

theorem withPersonality (h : t.Trusts d) {p : Personality ℝ} (hp : p.Frank) (hcounted : p.Counted) :
    (t.withPersonality p).Trusts d :=
  ⟨hp, ⟨hcounted, h.ready.chance⟩, h.desired, h.failures, h.most, h.count⟩

theorem succeeded (h : t.Trusts d) :
    ({ t with order := { t.order with failures := 0 } } : Table ℝ).Trusts d :=
  ⟨h.frank, h.ready, h.desired, rfl, h.most, h.count⟩

theorem archive (h : t.Trusts d) (x : Operation) (s : Sandwich) :
    ({ t with order := t.order.archive x s } : Table ℝ).Trusts d :=
  ⟨h.frank, h.ready, h.desired, h.failures, h.most, h.count⟩

theorem not_gaveUp (h : t.Trusts d) : t.order.gaveUp = false := by
  have hmost := h.most
  unfold Order.gaveUp
  rw [h.failures, decide_eq_false_iff_not]
  omega

end Table.Trusts

namespace Order

variable {d s : Sandwich} {edits thanks : Nat} {t : Table ℝ}

/-- What an order remembers if the sandwich before the customer is just what it asked for, after so
many edits and so many thanks. Thanks are for an edit. -/
inductive Granted (s : Sandwich) : Nat → Nat → Order → Prop where
  | fresh {o : Order} (hhistory : o.history = []) : Granted s 0 0 o
  | thanked {o : Order} {rest : List Operation} {before : Sandwich} {edits thanks : Nat}
      (hhistory : o.history = .affirm :: rest) (hlast : o.lastResult = some before)
      (hsame : s.names = before.names) (h : thanks ≤ edits) : Granted s edits thanks o
  | edited {o : Order} {x : Operation} {rest : List Operation} {before : Sandwich}
      {edits thanks : Nat} (hhistory : o.history = x :: rest) (hlast : o.lastResult = some before)
      (effect : (x.imagine ℝ before).names ≠ before.names)
      (hs : s = x.imagine ℝ before) (h : thanks + 1 ≤ edits) : Granted s edits thanks o

theorem Granted.le {o : Order} (h : Granted s edits thanks o) : thanks ≤ edits := by
  cases h with
  | fresh => exact Nat.le_refl 0
  | thanked _ _ _ h => exact h
  | edited _ _ _ _ h => omega

/-- What comes of a turn of a customer that got its way. -/
inductive Obliges (d s : Sandwich) (edits thanks : Nat) : Option Operation → Table ℝ → Prop where
  | content {t : Table ℝ} (trusts : t.Trusts d) (enough : isMissing d s = false) :
      Obliges d s edits thanks none t
  | thanks {t : Table ℝ} (trusts : t.Trusts d) (granted : Granted s edits (thanks + 1) t.order) :
      Obliges d s edits thanks (some .affirm) t
  | edit {x : Operation} {t : Table ℝ} (trusts : t.Trusts d) (changes : x.changesSandwich = true)
      (closer : d.distance (x.imagine ℝ s) < d.distance s)
      (granted : Granted (x.imagine ℝ s) (edits + 1) thanks t.order) :
      Obliges d s edits thanks (some x) t

/-- What a frank customer picks brings the sandwich closer. -/
theorem ends_pick_trusts (h : t.Trusts d) (hle : thanks ≤ edits) (s : Sandwich) :
    Ends (pick s) t (fun a t' => (a = none → isMissing d s = false ∧ t'.Trusts d) ∧
      ∀ x ∈ a, Obliges d s edits thanks (some x) { t' with order := t'.order.archive x s })
      never := by
  refine ((ends_pick_frank h.frank h.ready.chance h.count s).and (ends_pick_apt s t)).mono ?_
    fun _ _ hnever => hnever.1
  rintro a t' ⟨⟨henough, rfl, rfl⟩ | ⟨⟨x, rfl, hchanges⟩, c, hc, rfl⟩, hapt⟩
  · rw [h.desired] at henough
    exact ⟨fun _ => ⟨henough, h⟩, nofun⟩
  · rw [h.frank.allergies] at hapt
    have hx : Apt [] t.order s x := hapt x rfl
    have hcloser := hx.closer hchanges
    rw [h.desired] at hcloser
    have heffect : (x.imagine ℝ s).names ≠ s.names := hx.changes fun i hquestion => by
      rw [hquestion] at hchanges
      cases hchanges
    refine ⟨nofun, ?_⟩
    rintro _ ⟨⟩
    exact .edit ((h.withChance hc).archive x s) hchanges hcloser
      (.edited rfl rfl heffect rfl (by omega))

/-- The rest of a turn, which may be thanks if there were not too many. -/
theorem ends_proceed_trusts (h : t.Trusts d) (hle : thanks ≤ edits) (s : Sandwich)
    (used : List Skill) {polite : Bool} (hpolite : polite = true → thanks + 1 ≤ edits) :
    Ends (proceed s used polite) t (Obliges d s edits thanks) never := by
  unfold proceed
  rw [ends_bind]
  refine (Table.ends_fade h.ready.counted used).imp ?_
  rintro _ _ ⟨l, r, rfl, hcounted⟩
  have h₁ : (t.withPersonality (t.mind.personality.practised l r)).Trusts d :=
    h.withPersonality ⟨h.frank.allergies, h.frank.shyness, h.frank.spontaneity⟩ hcounted
  generalize t.withPersonality (t.mind.personality.practised l r) = t₁ at h₁ ⊢
  rw [ends_bind, ends_get, h₁.not_gaveUp, if_neg Bool.false_ne_true]
  split
  · rename_i hthanks
    unfold ask
    rw [ends_bind, Table.ends_reorder]
    exact .thanks (h₁.archive _ _) (.thanked rfl rfl rfl (hpolite hthanks))
  · rw [ends_bind]
    refine (ends_pick_trusts h₁ hle s).imp fun a t₂ h₂ => ?_
    cases a with
    | none => exact .content (h₂.1 rfl).2 (h₂.1 rfl).1
    | some x =>
      unfold ask
      rw [ends_bind, Table.ends_reorder]
      exact h₂.2 x rfl

/-- A success leaves no failures. -/
theorem ends_learn_success (h : t.Trusts d) {x : Operation}
    (hsucceeded : t.order.lastSucceeded ℝ s = true) :
    Ends (learn x s) t (fun _ t' => t'.Trusts d) never := by
  unfold learn
  rw [ends_bind, ends_get, hsucceeded, if_pos rfl]
  obtain ⟨l, r, hgrown, hcounted⟩ := t.mind.personality.upgrade_spec x.skills
  have h₁ := h.withPersonality (p := relieved (t.mind.personality.practised l r))
    ⟨h.frank.allergies, h.frank.shyness, h.frank.spontaneity⟩ (hcounted h.ready.counted)
  have h₂ := h₁.succeeded
  simp only [ends_bind, Table.ends_change, Table.ends_reorder, ends_get, hgrown]
  refine (Table.ends_lucky (yields_roll _) h₂.ready.chance).imp ?_
  rintro polite _ ⟨-, c, hc, rfl⟩
  exact h₂.withChance hc

/-- **A turn of a customer that got its way**: it is content, says thanks for an edit that worked, or
asks for another one. -/
theorem ends_next_trusts (h : t.Trusts d) (hgranted : Granted s edits thanks t.order) :
    Ends (next s) t (Obliges d s edits thanks) never := by
  unfold next
  rw [ends_bind, ends_get]
  cases hgranted with
  | fresh hhistory =>
    simp only [hhistory]
    exact ends_proceed_trusts h (Nat.le_refl 0) s [] nofun
  | thanked hhistory hlast hsame hle =>
    simp only [hhistory, hlast]
    rw [questionFailed_affirm hhistory, if_neg Bool.false_ne_true, ends_bind]
    unfold learn
    rw [ends_bind, ends_get, lastSucceeded_affirm hhistory hlast hsame,
      if_neg Bool.false_ne_true]
    exact ends_proceed_trusts h hle s [] nofun
  | edited hhistory hlast heffect hs hle =>
    have hsucceeded : t.order.lastSucceeded ℝ s = true := by
      rw [lastSucceeded_of_effect hhistory hlast heffect, hs]
      exact decide_eq_true rfl
    simp only [hhistory, hlast]
    rw [questionFailed_of_effect hhistory hlast heffect, if_neg Bool.false_ne_true, ends_bind]
    exact (ends_learn_success h hsucceeded).imp fun p t' h' =>
      ends_proceed_trusts h' (by omega) s p.1 fun _ => hle

/-! ## 5. Runs -/

/-- Where some turns of a customer lead from a table and a sandwich, the last one first, if each
time the sandwich becomes exactly what was asked for. -/
inductive Obeyed (t₀ : Table ℝ) (s₀ : Sandwich) : List Round → Table ℝ → Sandwich → Prop where
  | start : Obeyed t₀ s₀ [] t₀ s₀
  | asked {rounds : List Round} {t t' : Table ℝ} {s : Sandwich} {x : Operation}
      (h : Obeyed t₀ s₀ rounds t s) (hnext : (next s).perform t = (.ok (some x), t')) :
      Obeyed t₀ s₀ (⟨s, t.order.verdict ℝ s, x⟩ :: rounds) t' (x.imagine ℝ s)

/-- Whether a round was for an edit. -/
def Round.isEdit (r : Round) : Bool := r.said.changesSandwich

/-- Whether a round was for thanks. -/
def Round.isThanks (r : Round) : Bool := r.said.same .affirm

/-- What holds after any number of turns of a customer that always gets its way. Every round was for
an edit or for thanks, and each edit brought the sandwich closer. -/
structure Pleased (d s₀ : Sandwich) (rounds : List Round) (t : Table ℝ) (s : Sandwich) :
    Prop where
  trusts : t.Trusts d
  granted : Granted s (rounds.countP Round.isEdit) (rounds.countP Round.isThanks) t.order
  length : rounds.length = rounds.countP Round.isEdit + rounds.countP Round.isThanks
  closer : rounds.countP Round.isEdit + d.distance s ≤ d.distance s₀

namespace Pleased

variable {s₀ : Sandwich} {rounds : List Round}

/-- One more turn. -/
theorem asked (h : Pleased d s₀ rounds t s) {x : Operation} {t' : Table ℝ} (v : Verdict)
    (hx : Obliges d s (rounds.countP Round.isEdit) (rounds.countP Round.isThanks) (some x) t') :
    Pleased d s₀ (⟨s, v, x⟩ :: rounds) t' (x.imagine ℝ s) := by
  have hlength := h.length
  have hcloser := h.closer
  cases hx with
  | thanks trusts granted =>
    have hedits : (⟨s, v, .affirm⟩ :: rounds).countP Round.isEdit = rounds.countP Round.isEdit :=
      List.countP_cons_of_neg Bool.false_ne_true
    have hthanks : (⟨s, v, .affirm⟩ :: rounds).countP Round.isThanks =
        rounds.countP Round.isThanks + 1 := List.countP_cons_of_pos rfl
    refine ⟨trusts, ?_, ?_, ?_⟩
    · rw [hedits, hthanks]
      exact granted
    · rw [hedits, hthanks, List.length_cons]
      omega
    · rw [hedits]
      exact hcloser
  | edit trusts changes closer granted =>
    have hedits : (⟨s, v, x⟩ :: rounds).countP Round.isEdit = rounds.countP Round.isEdit + 1 :=
      List.countP_cons_of_pos changes
    have hthanks : (⟨s, v, x⟩ :: rounds).countP Round.isThanks = rounds.countP Round.isThanks := by
      refine List.countP_cons_of_neg fun hthanks => ?_
      cases x <;> first | exact absurd changes Bool.false_ne_true | cases hthanks
    refine ⟨trusts, ?_, ?_, ?_⟩
    · rw [hedits, hthanks]
      exact granted
    · rw [hedits, hthanks, List.length_cons]
      omega
    · rw [hedits]
      omega

/-- There are not more rounds than twice what the sandwich was off by. -/
theorem length_le (h : Pleased d s₀ rounds t s) : rounds.length ≤ 2 * d.distance s₀ := by
  have hlength := h.length
  have hcloser := h.closer
  have hle := h.granted.le
  omega

end Pleased

/-! ## 6. How long it takes, and what is there in the end -/

/-- Where nothing is missing, there is as much of everything as desired. -/
theorem count_le_of_enough (h : isMissing d s = false) (name : String) :
    d.count name ≤ s.count name := by
  by_contra hlt
  have hmem : name ∈ d.names := List.count_pos_iff.mp (Nat.zero_lt_of_lt (Nat.lt_of_not_le hlt))
  have hmissing : isMissing d s = true :=
    List.any_eq_true.mpr ⟨name, hmem, decide_eq_true (Nat.lt_of_not_le hlt)⟩
  rw [h] at hmissing
  cases hmissing

namespace Obeyed

variable {t₀ : Table ℝ} {s₀ : Sandwich} {rounds : List Round}

/-- Being obeyed is one of the ways a run can go. -/
theorem asks (h : Obeyed t₀ s₀ rounds t s) (hhistory : t₀.order.history = [])
    (hfailures : t₀.order.failures = 0) : Asks ℝ rounds t.order := by
  induction h with
  | start => exact .start hhistory hfailures
  | asked _ hnext ih => exact ih.asked hnext

/-- What came is what was asked for. -/
theorem seen (h : Obeyed t₀ s₀ rounds t s) : ∀ r ∈ rounds.head?, s = r.said.imagine ℝ r.seen := by
  intro r hr
  cases h with
  | start => cases hr
  | asked _ _ =>
    cases hr
    rfl

/-- **Whatever happens while it is obeyed**, a customer is pleased. -/
theorem pleased (h : Obeyed t₀ s₀ rounds t s) (htrusts : t₀.Trusts d)
    (hhistory : t₀.order.history = []) : Pleased d s₀ rounds t s := by
  induction h with
  | start => exact ⟨htrusts, .fresh hhistory, rfl, Nat.le_of_eq (Nat.zero_add _)⟩
  | asked h hnext ih =>
    have hends := ends_next_trusts ih.trusts ih.granted
    unfold Ends at hends
    rw [hnext] at hends
    exact ih.asked _ hends

/-- **Sooner or later it is content**: every turn before that is one of a bounded number. -/
theorem exists_content (htrusts : t₀.Trusts d) (hhistory : t₀.order.history = []) :
    ∀ (left : Nat) {rounds : List Round} {t : Table ℝ} {s : Sandwich},
      Obeyed t₀ s₀ rounds t s → 2 * d.distance s₀ < left + rounds.length →
      ∃ rounds t s t', Obeyed t₀ s₀ rounds t s ∧ (next s).perform t = (.ok none, t') := by
  intro left
  induction left with
  | zero =>
    intro rounds t s h hleft
    have hlength := (h.pleased htrusts hhistory).length_le
    omega
  | succ left ih =>
    intro rounds t s h hleft
    have hpleased := h.pleased htrusts hhistory
    obtain ⟨a, t', hnext, -⟩ := (ends_next_trusts hpleased.trusts hpleased.granted).exists
    cases a with
    | none => exact ⟨rounds, t, s, t', h, hnext⟩
    | some x =>
      refine ih (h.asked hnext) ?_
      rw [List.length_cons]
      omega

end Obeyed

/-- **A frank customer that always gets what it asked for converges**, whatever it desires and
whatever is there at first. It asks for no more edits than the sandwich was off by, each of which
works, and says thanks at most that often; nothing ever fails. In the end there is as much of
everything as desired. A customer with a counter that has no logarithm does not get through its
first turn. -/
theorem obeyed_converges {t₀ : Table ℝ} (hfrank : t₀.mind.personality.Frank)
    (hchance : t₀.mind.chance.Proper) (hhistory : t₀.order.history = [])
    (hfailures : t₀.order.failures = 0) (hmost : 1 ≤ t₀.order.maxFailures)
    (hcount : 1 ≤ t₀.order.maxCount) (s₀ : Sandwich) :
    (t₀.mind.personality.Counted →
      (∀ rounds t s, Obeyed t₀ s₀ rounds t s →
        t.order.failures = 0 ∧
        rounds.length = rounds.countP Round.isEdit + rounds.countP Round.isThanks ∧
        rounds.countP Round.isEdit ≤ t₀.order.desired.distance s₀ ∧
        rounds.countP Round.isThanks ≤ t₀.order.desired.distance s₀ ∧
        (∀ r ∈ rounds.head?, r.isEdit = true → t.order.verdict ℝ s = .success) ∧
        Ends (next s) t (fun a t' => t'.order.failures = 0 ∧
          (a = none → ∀ name, t₀.order.desired.count name ≤ s.count name)) never) ∧
      ∃ rounds t s t', Obeyed t₀ s₀ rounds t s ∧ (next s).perform t = (.ok none, t')) ∧
    (¬ t₀.mind.personality.Counted →
      ∃ t', (next s₀).perform t₀ = (.error .noLogarithm, t')) := by
  refine ⟨fun hcounted => ?_, fun hflawed => ?_⟩
  · have htrusts : t₀.Trusts t₀.order.desired :=
      ⟨hfrank, ⟨hcounted, hchance⟩, rfl, hfailures, hmost, hcount⟩
    refine ⟨fun rounds t s h => ?_,
      Obeyed.exists_content htrusts hhistory (2 * t₀.order.desired.distance s₀ + 1) .start
        (Nat.lt_succ_self _)⟩
    have hpleased := h.pleased htrusts hhistory
    have hcloser := hpleased.closer
    have hle := hpleased.granted.le
    refine ⟨hpleased.trusts.failures, hpleased.length, by omega, by omega, fun r hr hedit => ?_,
      (ends_next_trusts hpleased.trusts hpleased.granted).imp fun a t' h' => ?_⟩
    · have hearns := ((h.asks hhistory hfailures).reckons.earns s).2 r hr
      rw [hearns.edit hedit, if_pos (congrArg Sandwich.names (h.seen r hr))]
    · cases h' with
      | content trusts enough => exact ⟨trusts.failures, fun _ => count_le_of_enough enough⟩
      | thanks trusts _ => exact ⟨trusts.failures, nofun⟩
      | edit trusts _ _ _ => exact ⟨trusts.failures, nofun⟩
  · exact perform_next_fault hflawed hhistory s₀

namespace House

/-- A customer that wants a bread and finds a tomato has it after at most two edits and two
thanks. -/
theorem obeyed_bread : impatient.mind.personality.Frank ∧ wanted.distance got = 2 ∧
    ∃ rounds t s t', Obeyed impatient got rounds t s ∧ (next s).perform t = (.ok none, t') ∧
      rounds.countP Round.isEdit ≤ 2 ∧ rounds.countP Round.isThanks ≤ 2 ∧
      1 ≤ s.count "white-bread-bottom" := by
  have hfrank : impatient.mind.personality.Frank := ⟨rfl, rfl, rfl⟩
  have hdistance : wanted.distance got = 2 := by decide
  have hready := stands_impatient.craves.ready
  obtain ⟨hall, rounds, t, s, t', hobeyed, hnone⟩ :=
    (obeyed_converges hfrank hready.chance rfl rfl (Int.le_refl 1) (by decide) got).1
      hready.counted
  obtain ⟨-, -, hedits, hthanks, -, hends⟩ := hall rounds t s hobeyed
  unfold Ends at hends
  rw [hnone] at hends
  have henough := hends.2 rfl "white-bread-bottom"
  exact ⟨hfrank, hdistance, rounds, t, s, t', hobeyed, hnone, hdistance ▸ hedits,
    hdistance ▸ hthanks, henough⟩

end House

end Order

end DeliTalk
