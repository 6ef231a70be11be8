import DeliTalk.Proofs.Portions
import Mathlib.Data.List.TakeWhile

/-!
# What a calm customer asks for

A customer without allergies that does not forget, is not shy and follows no impulse asks for its
sandwich from the bottom up. As long as what it got is the beginning of what it wants, it asks for
the next portion, now and then says thanks in between, and has enough once nothing is missing.
Each turn counts at most half a portion, so the number of turns is bounded.

* `Wish.outlook`: the wishes of a customer that got a beginning of its sandwich.
* `Order.ends_pick_healthy`, `Order.ends_pick_onward`: the cascade without allergies and
  forgetting, up to its first open step.
* `Order.ends_pick_calm`: what a calm customer picks.
* `Order.Stands`: what an order remembers between two turns.
* `Order.ends_next_calm`: a whole turn.
-/

namespace DeliTalk

open Act

/-! ## 1. Wishes -/

namespace Wish

/-- A wish that is there. -/
def met (i : Ingredient) : Wish := ⟨i, true, false⟩

/-- A wish that is not there yet. -/
def unmet (i : Ingredient) : Wish := ⟨i, false, false⟩

/-- The wishes of a customer that got the first ones. -/
def outlook (wanted : List Ingredient) (j : Nat) : List Wish :=
  (wanted.take j).map met ++ (wanted.drop j).map unmet

/-- What is there of a sandwich's beginning is the beginning. -/
theorem zipWith_presence : ∀ (wanted : List Ingredient) (j : Nat),
    wanted.zipWith (fun i present => ⟨i, present, false⟩)
      (presence (wanted.map (·.name)) ((wanted.map (·.name)).take j)) = outlook wanted j
  | [], j => by simp [presence, outlook]
  | i :: rest, 0 => by
    have ih := zipWith_presence rest 0
    simp only [List.take_zero] at ih
    simp only [List.map_cons, List.take_zero, presence, List.not_mem_nil, if_false,
      List.zipWith_cons_cons, ih]
    rfl
  | i :: rest, j + 1 => by
    have ih := zipWith_presence rest j
    simp only [List.map_cons, List.take_succ_cons, presence, List.mem_cons_self, if_true,
      List.erase_cons_head, List.zipWith_cons_cons, ih]
    rfl

theorem listOf_outlook {desired result : Sandwich} {j : Nat} {suppressed : Ingredient → Bool}
    (hs : ∀ i, suppressed i = false) (h : result.names = desired.names.take j) :
    listOf suppressed desired result = outlook desired.ingredients j := by
  unfold listOf
  rw [h]
  simp only [hs]
  exact zipWith_presence desired.ingredients j

variable {wanted : List Ingredient} {j : Nat}

theorem mem_outlook {w : Wish} (h : w ∈ outlook wanted j) : w.suppressed = false := by
  rcases List.mem_append.mp h with h | h
  · obtain ⟨i, -, rfl⟩ := List.mem_map.mp h
    rfl
  · obtain ⟨i, -, rfl⟩ := List.mem_map.mp h
    rfl

theorem length_met (h : j ≤ wanted.length) : ((wanted.take j).map met).length = j := by
  rw [List.length_map, List.length_take, Nat.min_eq_left h]

theorem take_outlook (h : j ≤ wanted.length) :
    (outlook wanted j).take j = (wanted.take j).map met := by
  unfold outlook
  rw [List.take_append_of_le_length (length_met h).ge, List.take_of_length_le (length_met h).le]

theorem length_outlook : (outlook wanted j).length = wanted.length := by
  unfold outlook
  rw [List.length_append, List.length_map, List.length_map, List.length_take, List.length_drop]
  omega

theorem afterServed_outlook (h : j ≤ wanted.length) : afterServed (outlook wanted j) = j := by
  have hopen : ∀ w ∈ ((wanted.drop j).map unmet).reverse, (!w.isServed) = true := by
    intro w hw
    obtain ⟨i, -, rfl⟩ := List.mem_map.mp (List.mem_reverse.mp hw)
    rfl
  have hserved : ((wanted.take j).map met).reverse.takeWhile (fun w => !w.isServed) = [] := by
    rw [List.takeWhile_eq_nil_iff]
    intro hpos hw
    obtain ⟨i, -, hi⟩ := List.mem_map.mp (List.mem_reverse.mp (List.get_mem _ ⟨0, hpos⟩))
    rw [← hi] at hw
    exact absurd hw Bool.false_ne_true
  unfold afterServed
  rw [length_outlook]
  unfold outlook
  rw [List.reverse_append, List.takeWhile_append_of_pos hopen, hserved, List.append_nil,
    List.length_reverse, List.length_map, List.length_drop]
  omega

theorem target_outlook (h : j ≤ wanted.length) : target (outlook wanted j) = j := by
  have hnone : ((outlook wanted j).drop j).takeWhile (·.suppressed) = [] := by
    rw [List.takeWhile_eq_nil_iff]
    intro hpos hw
    have hmem := List.mem_of_mem_drop (List.get_mem ((outlook wanted j).drop j) ⟨0, hpos⟩)
    rw [mem_outlook hmem] at hw
    cases hw
  unfold target
  rw [afterServed_outlook h, passOver, hnone]
  rfl

theorem getElem?_outlook (h : j < wanted.length) :
    (outlook wanted j)[j]? = some (unmet wanted[j]) := by
  unfold outlook
  rw [List.getElem?_append_right (length_met h.le).le, length_met h.le, Nat.sub_self,
    List.getElem?_map, List.getElem?_drop, Nat.add_zero, List.getElem?_eq_getElem h]
  rfl

theorem drop_outlook (h : j < wanted.length) :
    (outlook wanted j).drop (j + 1) = (wanted.drop (j + 1)).map unmet := by
  have hlength := length_met h.le
  unfold outlook
  rw [List.drop_append, hlength, List.drop_of_length_le (by omega), List.nil_append,
    Nat.add_sub_cancel_left, ← List.map_drop, List.drop_drop]

end Wish

namespace Order

variable {wanted : List Ingredient} {j : Nat}

theorem runLength_outlook (h : j < wanted.length) :
    runLength (Wish.outlook wanted j) j wanted[j] =
      1 + ((wanted.drop (j + 1)).takeWhile (·.same wanted[j])).length := by
  unfold runLength
  rw [Wish.drop_outlook h, List.takeWhile_map, List.length_map]
  simp [Function.comp_def, Wish.unmet]

/-- **As many of the next wish as follow each other** make a portion that comes next. -/
theorem follows_run (h : j < wanted.length) : Follows (wanted.map (·.name)) j
    (runLength (Wish.outlook wanted j) j wanted[j]) wanted[j].name := by
  rw [runLength_outlook h]
  have hle := (List.takeWhile_sublist (fun i => i.same wanted[j])
    (l := wanted.drop (j + 1))).length_le
  have hsame : ∀ i ∈ (wanted.drop (j + 1)).takeWhile (·.same wanted[j]),
      i.name = wanted[j].name := by
    intro i hi
    have := List.mem_takeWhile_imp hi
    simpa [Ingredient.same] using this
  have htake := List.prefix_iff_eq_take.mp
    (List.takeWhile_prefix (fun i => i.same wanted[j]) (l := wanted.drop (j + 1)))
  generalize (wanted.drop (j + 1)).takeWhile (fun i => i.same wanted[j]) = run at hle hsame htake
  rw [List.length_drop] at hle
  refine ⟨Nat.le_add_right 1 _, ?_, ?_⟩
  · rw [List.length_map]
    omega
  · have hrun : run.map (·.name) = List.replicate run.length wanted[j].name := by
      rw [List.eq_replicate_iff, List.length_map]
      refine ⟨rfl, fun name hname => ?_⟩
      obtain ⟨i, hi, rfl⟩ := List.mem_map.mp hname
      exact hsame i hi
    have hrest : ((wanted.map (·.name)).drop (j + 1)).take run.length =
        List.replicate run.length wanted[j].name := by
      rw [← hrun, ← List.map_drop, ← List.map_take, ← htake]
    have hnext : (wanted.map (·.name)).drop j =
        wanted[j].name :: (wanted.map (·.name)).drop (j + 1) := by
      rw [List.drop_eq_getElem_cons (by simpa using h), List.getElem_map]
    rw [List.take_add, hnext, Nat.add_comm 1, List.take_succ_cons, hrest, List.replicate_succ]

end Order

/-! ## 2. Calm customers -/

/-- Whether a machine asks straight away for what it wants. -/
structure Personality.Calm (p : Personality ℝ) : Prop where
  allergies : p.allergies = []
  forgetfulness : p.forgetfulness = 0
  shyness : p.shyness = 0
  spontaneity : p.spontaneity = 0

namespace Order

variable {p : Personality ℝ} {desired result : Sandwich} {j : Nat}

theorem yields_rollShy_bold (h : p.shyness = 0) : Yields (rollShy p) (· = false) := by
  unfold rollShy
  rw [h, zero_mul]
  exact yields_roll_zero

theorem yields_impulse_composed (h : p.spontaneity = 0) :
    Yields (impulse p desired j) (· = (desired, j)) := by
  unfold impulse
  split
  · exact yields_pure rfl
  · rw [h, zero_mul]
    refine yields_bind yields_roll_zero ?_
    rintro _ rfl
    exact yields_pure rfl

section

variable (h : result.names = desired.names.take j)

include h

theorem count_le_count (name : String) : result.count name ≤ desired.count name := by
  unfold Sandwich.count
  rw [h]
  exact (List.take_sublist j desired.names).count_le name

theorem firstExtra?_eq_none : firstExtra? desired result = none := by
  unfold firstExtra?
  rw [List.find?_eq_none]
  intro i _
  have := count_le_count h i.name
  simpa using this

/-- Something is missing as long as there is only a beginning. -/
theorem isMissing_iff (hj : j ≤ desired.names.length) :
    isMissing desired result = true ↔ j < desired.names.length := by
  unfold isMissing Sandwich.count
  rw [List.any_eq_true, h]
  constructor
  · rintro ⟨name, -, hlt⟩
    by_contra hge
    rw [List.take_of_length_le (by omega)] at hlt
    simp at hlt
  · intro hlt
    refine ⟨desired.names[j], List.getElem_mem hlt, ?_⟩
    have hnext : desired.names = desired.names.take j ++ desired.names[j] ::
        desired.names.drop (j + 1) := by
      rw [← List.drop_eq_getElem_cons hlt, List.take_append_drop]
    have hcount := congrArg (List.count desired.names[j]) hnext
    rw [List.count_append, List.count_cons_self] at hcount
    simp only [decide_eq_true_eq]
    omega

end

theorem lands_askEarlier_calm {kind : Chance ℝ → Prop} {wanted : List Ingredient}
    (hj : j ≤ wanted.length) :
    Lands kind (askEarlier p (Wish.outlook wanted j) j) (· = none) := by
  have hnone : ((Wish.outlook wanted j).take j).findIdx? (·.isOpen) = none := by
    rw [Wish.take_outlook hj, List.findIdx?_eq_none_iff]
    intro w hw
    obtain ⟨i, -, rfl⟩ := List.mem_map.mp hw
    rfl
  unfold askEarlier
  rw [hnone]
  exact lands_pure rfl

/-- What a calm customer picks: nothing if it has everything, else a portion that comes next, of at
most so many. -/
def Picks (d : Sandwich) (most j : Nat) : Option Operation → Prop
  | none => j = d.names.length
  | some x => ∃ n i, Operation.Portion i n x ∧ i ∈ d.ingredients ∧ Follows d.names j n i.name ∧
      n ≤ most

/-- **The next wish** of a calm customer is the next portion. -/
theorem yields_askNext_calm (h : p.Calm) {o : Order} {most : Nat} (hmost : 1 ≤ most)
    (hcount : o.maxCount = most) (hj : j < desired.ingredients.length) :
    Yields (askNext p o result (Wish.outlook desired.ingredients j) j)
      (Picks desired most j) := by
  have hget := Wish.getElem?_outlook hj
  have hwanted : wanted? (Wish.outlook desired.ingredients j) j = some j := by
    unfold wanted?
    rw [hget]
    rfl
  have hfollows : Follows desired.names j
      (runLength (Wish.outlook desired.ingredients j) j desired.ingredients[j])
      desired.ingredients[j].name := follows_run hj
  have hmem := List.getElem_mem hj
  refine yields_askNext_wanted (by omega) result hwanted hget (yields_rollShy_bold h.shyness)
    nofun ⟨1, _, .once, hmem, hfollows.le (Nat.le_refl 1) hfollows.pos, hmost⟩ fun x hx => ?_
  simp only [Wish.unmet] at hx
  generalize runLength (Wish.outlook desired.ingredients j) j desired.ingredients[j] = run
    at hfollows hx
  have hpos := hfollows.pos
  have hmin : min (run : Int) (most : Int) = ((min run most : Nat) : Int) := by omega
  unfold severalAtOnce at hx
  rw [hcount] at hx
  simp only [hmin] at hx
  rw [if_neg (by omega), Int.toNat_natCast] at hx
  cases hx
  exact ⟨min run most, _, .several _, hmem, hfollows.le (by omega) (Nat.min_le_left run most),
    Nat.min_le_right run most⟩

/-! ## 3. The cascade -/

variable {t : Table ℝ}

/-- A step of the cascade that comes to nothing is passed over, whatever the source is. -/
theorem ends_firstOf_none {kind : Chance ℝ → Prop} {x : Luck ℝ (Option Operation)}
    (hx : Lands kind x (· = none)) (hc : kind t.mind.chance)
    {y : Act (Table ℝ) (Option Operation)} {post : Option Operation → Table ℝ → Prop}
    (hy : ∀ c : Chance ℝ, kind c → Ends y (t.withChance c) post never) :
    Ends (firstOf (Table.lucky x) y) t post never := by
  unfold firstOf
  rw [ends_bind]
  refine (Table.ends_lucky_kind hx hc).imp ?_
  rintro _ _ ⟨rfl, c, hc, rfl⟩
  exact hy c hc

/-- The last steps of a calm customer: no impulse, and the next portion. -/
theorem ends_askOnward_calm (hcalm : t.mind.personality.Calm) (hc : t.mind.chance.Proper)
    {most : Nat} (hmost : 1 ≤ most) (hcount : t.order.maxCount = most)
    (hj : j < t.order.desired.ingredients.length)
    (h : result.names = t.order.desired.names.take j) :
    Ends (askOnward t.mind.personality [] result j) t
      (fun x t' => Picks t.order.desired most j x ∧ ∃ c, c.Proper ∧ t' = t.withChance c)
      never := by
  unfold askOnward
  rw [ends_bind, ends_get, ends_bind]
  refine (Table.ends_lucky (yields_impulse_composed hcalm.spontaneity) hc).imp ?_
  rintro _ _ ⟨rfl, c, hc', rfl⟩
  simp only
  rw [ends_bind, Table.ends_reorder, ends_bind]
  have hws : Wish.listOf (anyIncludes ([] : List (Preference ℝ))) t.order.desired result =
      Wish.outlook t.order.desired.ingredients j := Wish.listOf_outlook (fun _ => rfl) h
  rw [hws]
  refine (Table.ends_lucky (yields_askNext_calm hcalm hmost hcount hj) hc').imp ?_
  rintro x _ ⟨hx, c', hc'', rfl⟩
  split
  · obtain ⟨n, i, hportion, -⟩ := hx
    cases hportion
  · exact ⟨hx, c', hc'', rfl⟩

section Healthy

variable {kind : Chance ℝ → Prop} (hzero : Lands kind (roll (0 : ℝ)) (· = false))
  (hallergies : t.mind.personality.allergies = [])
  (hforgetfulness : t.mind.personality.forgetfulness = 0) (hc : kind t.mind.chance)
  {post : Option Operation → Table ℝ → Prop}

include hzero hallergies hforgetfulness hc

/-- A customer without allergies that forgets nothing comes to look for what was passed over, as
long as something is missing and nothing is there that should not be. -/
theorem ends_pick_healthy {ws : List Wish} (hmissing : isMissing t.order.desired result = true)
    (hextra : firstExtra? t.order.desired result = none)
    (hws : ws = Wish.listOf (fun _ => false) t.order.desired result)
    (hearlier : ∀ c : Chance ℝ, kind c →
      Ends (firstOf (Table.lucky (askEarlier t.mind.personality ws (Wish.target ws)))
        (firstOf (Table.lucky (askSafety t.mind.personality result []))
          (askOnward t.mind.personality [] result (Wish.target ws)))) (t.withChance c) post never) :
    Ends (pick result) t post never := by
  have hnone : Lands kind (rollAvoided ([] : List (Preference ℝ))) (· = []) := lands_pure rfl
  have hremoval : Lands kind (askRemoval t.mind.personality t.order.desired result)
      (· = none) := by
    unfold askRemoval
    rw [hextra]
    exact lands_pure rfl
  have hnever : anyIncludes ([] : List (Preference ℝ)) = fun _ => false := rfl
  unfold pick
  rw [ends_bind, ends_get]
  simp only
  rw [hmissing, if_neg (by simp), hallergies, hforgetfulness, ends_bind]
  refine (Table.ends_lucky_kind hnone hc).imp fun avoided t₁ h₁ => ?_
  obtain ⟨rfl, c₁, hc₁, rfl⟩ := h₁
  rw [hnever, ← hws, ends_bind]
  refine (Table.ends_lucky_kind hzero hc₁).imp fun forgot t₂ h₂ => ?_
  obtain ⟨rfl, c₂, hc₂, rfl⟩ := h₂
  simp only [Bool.false_eq_true, false_and, if_false]
  exact ends_firstOf_none hremoval hc₂ hearlier

/-- In view of a beginning of its sandwich it comes to the last steps: nothing was passed over, and
nothing is harmful. -/
theorem ends_pick_onward (hj : j < t.order.desired.names.length)
    (h : result.names = t.order.desired.names.take j)
    (honward : ∀ c : Chance ℝ, kind c →
      Ends (askOnward t.mind.personality [] result j) (t.withChance c) post never) :
    Ends (pick result) t post never := by
  have hle : j ≤ t.order.desired.ingredients.length := by
    rw [Sandwich.names, List.length_map] at hj
    exact hj.le
  refine ends_pick_healthy hzero hallergies hforgetfulness hc ((isMissing_iff h hj.le).mpr hj)
    (firstExtra?_eq_none h) (Wish.listOf_outlook (fun _ => rfl) h).symm fun c₁ hc₁ => ?_
  rw [Wish.target_outlook hle]
  refine ends_firstOf_none (lands_askEarlier_calm hle) hc₁ fun c₂ hc₂ => ?_
  exact ends_firstOf_none (lands_pure rfl) hc₂ honward

end Healthy

/-- **What a calm customer picks** in view of a beginning of its sandwich. -/
theorem ends_pick_calm (hcalm : t.mind.personality.Calm) (hc : t.mind.chance.Proper) {most : Nat}
    (hmost : 1 ≤ most) (hcount : t.order.maxCount = most)
    (hj : j ≤ t.order.desired.names.length)
    (h : result.names = t.order.desired.names.take j) :
    Ends (pick result) t (fun x t' => Picks t.order.desired most j x ∧
      ∃ c, c.Proper ∧ t' = t.withChance c) never := by
  by_cases hlt : j < t.order.desired.names.length
  · refine ends_pick_onward yields_roll_zero hcalm.allergies hcalm.forgetfulness hc hlt h
      fun c hc' => ?_
    rw [Sandwich.names, List.length_map] at hlt
    exact ends_askOnward_calm (t := t.withChance c) hcalm hc' hmost hcount hlt h
  · have hdone : isMissing t.order.desired result = false := by
      rw [Bool.eq_false_iff]
      exact fun hmissing => hlt ((isMissing_iff h hj).mp hmissing)
    unfold pick
    rw [ends_bind, ends_get]
    simp only
    rw [hdone, if_pos (by simp)]
    have hall : j = t.order.desired.names.length := by omega
    exact ⟨hall, t.mind.chance, hc, rfl⟩

/-! ## 4. A whole turn -/

/-- What an order remembers between two turns, when so many requests have brought so much of a
sandwich: nothing yet, that thanks were said, or which portion was asked for. -/
inductive Stands (names : List String) : Nat → Nat → Order → Prop
  | fresh {o : Order} : o.history = [] → o.failures = 0 → Stands names 0 0 o
  | thanked {o : Order} {k j : Nat} {rest : List Operation} {s : Sandwich} :
      o.history = .affirm :: rest → o.lastResult = some s → s.names = names.take j →
      k ≤ 2 * j → o.failures ≤ j → Stands names k j o
  | asked {o : Order} {k j m n : Nat} {i : Ingredient} {x : Operation} {rest : List Operation}
      {s : Sandwich} :
      o.history = x :: rest → o.lastResult = some s → Operation.Portion i n x →
      Follows names j n i.name → s.names = names.take j → m = n ∨ m = 1 → k + 1 ≤ 2 * (j + m) →
      o.failures ≤ j → Stands names k (j + m) o

/-- Requests bring half a portion each. -/
theorem Stands.le {names : List String} {k j : Nat} {o : Order} (h : Stands names k j o) :
    k ≤ 2 * j := by
  cases h with
  | fresh _ _ => exact Nat.le_refl 0
  | thanked _ _ _ hk _ => exact hk
  | asked _ _ _ _ _ _ hk _ => omega

end Order

/-- A calm customer that wants a sandwich, has words for so many at once, and is not fed up. -/
structure Table.Craves (d : Sandwich) (most : Nat) (t : Table ℝ) : Prop where
  calm : t.mind.personality.Calm
  ready : t.mind.Ready
  desired : t.order.desired = d
  count : t.order.maxCount = most
  room : (d.names.length : Int) ≤ t.order.maxFailures
  few : t.order.failures < d.names.length

namespace Table.Craves

variable {d : Sandwich} {most : Nat} {t : Table ℝ}

theorem withChance (h : t.Craves d most) {c : Chance ℝ} (hc : c.Proper) :
    (t.withChance c).Craves d most :=
  ⟨h.calm, ⟨h.ready.counted, hc⟩, h.desired, h.count, h.room, h.few⟩

theorem withPersonality (h : t.Craves d most) {p : Personality ℝ} (hp : p.Calm)
    (hcounted : p.Counted) : (t.withPersonality p).Craves d most :=
  ⟨hp, ⟨hcounted, h.ready.chance⟩, h.desired, h.count, h.room, h.few⟩

theorem withFailures (h : t.Craves d most) {n : Nat} (hn : n < d.names.length) :
    ({ t with order := { t.order with failures := n } } : Table ℝ).Craves d most :=
  ⟨h.calm, h.ready, h.desired, h.count, h.room, hn⟩

theorem archive (h : t.Craves d most) (x : Operation) (s : Sandwich) :
    ({ t with order := t.order.archive x s } : Table ℝ).Craves d most :=
  ⟨h.calm, h.ready, h.desired, h.count, h.room, h.few⟩

theorem not_gaveUp (h : t.Craves d most) : t.order.gaveUp = false := by
  have hroom := h.room
  have hfew := h.few
  unfold Order.gaveUp
  exact decide_eq_false (by omega)

end Table.Craves

/-- A calm customer between two turns, after so many requests that brought so much. -/
structure Table.Stands (d : Sandwich) (most k j : Nat) (t : Table ℝ) : Prop where
  craves : t.Craves d most
  fits : j ≤ d.names.length
  stands : t.order.Stands d.names k j

namespace Order

variable {d result : Sandwich} {most k j : Nat} {t : Table ℝ}

/-- What comes of a turn of a calm customer: it has enough, says thanks, or asks for the next
portion, and it stands wherever the server brings it. -/
def Requested (d : Sandwich) (most k j : Nat) : Option Operation → Table ℝ → Prop
  | none, t => j = d.names.length ∧ t.Craves d most
  | some x, t => (x = .affirm ∧ t.Stands d most (k + 1) j) ∨
    ∃ n i, Operation.Portion i n x ∧ i ∈ d.ingredients ∧ Follows d.names j n i.name ∧ n ≤ most ∧
      ∀ m, m = n ∨ m = 1 → t.Stands d most (k + 1) (j + m)

/-- After learning, a calm customer proceeds to thanks or to its next request. -/
theorem ends_proceed_calm (h : t.Craves d most) (hmost : 1 ≤ most) (hj : j ≤ d.names.length)
    (hfailures : t.order.failures ≤ j) (hk : k ≤ 2 * j) (hresult : result.names = d.names.take j)
    (used : List Skill) {polite : Bool} (hpolite : polite = true → k + 1 ≤ 2 * j) :
    Ends (proceed result used polite) t (Requested d most k j) never := by
  unfold proceed
  rw [ends_bind]
  refine (Table.ends_fade h.ready.counted used).imp ?_
  rintro _ _ ⟨l, r, rfl, hcounted⟩
  have h₁ : (t.withPersonality (t.mind.personality.practised l r)).Craves d most :=
    h.withPersonality ⟨h.calm.allergies, h.calm.forgetfulness, h.calm.shyness,
      h.calm.spontaneity⟩ hcounted
  have hfailures₁ : (t.withPersonality (t.mind.personality.practised l r)).order.failures ≤ j :=
    hfailures
  generalize t.withPersonality (t.mind.personality.practised l r) = t₁ at h₁ hfailures₁ ⊢
  rw [ends_bind, ends_get, h₁.not_gaveUp, if_neg Bool.false_ne_true]
  split
  · rename_i hthanks
    unfold ask
    rw [ends_bind, Table.ends_reorder]
    exact Or.inl ⟨rfl, h₁.archive _ _, hj,
      .thanked rfl rfl hresult (hpolite hthanks) hfailures₁⟩
  · rw [ends_bind]
    have hdesired := h₁.desired
    refine (ends_pick_calm (j := j) h₁.calm h₁.ready.chance hmost h₁.count
      (by rw [hdesired]; exact hj) (by rw [hdesired]; exact hresult)).imp ?_
    rintro x _ ⟨hx, c, hc, rfl⟩
    rw [hdesired] at hx
    have h₂ := h₁.withChance hc
    cases x with
    | none => exact ⟨hx, h₂⟩
    | some x =>
      obtain ⟨n, i, hportion, hi, hfollows, hn⟩ := hx
      unfold ask
      rw [ends_bind, Table.ends_reorder]
      refine Or.inr ⟨n, i, hportion, hi, hfollows, hn, fun m hm => ⟨h₂.archive _ _, ?_, ?_⟩⟩
      · have := hfollows.fits
        have := hfollows.pos
        omega
      · have := hfollows.pos
        exact .asked rfl rfl hportion hfollows hresult hm (by omega) hfailures₁

/-- Two beginnings of different lengths differ. -/
theorem take_ne_take {names : List String} {a b : Nat} (hlt : a < b) (hb : b ≤ names.length) :
    names.take b ≠ names.take a := by
  intro heq
  have hlength := congrArg List.length heq
  rw [List.length_take, List.length_take] at hlength
  omega

section

variable {o : Order} {last : Operation} {rest : List Operation} {before : Sandwich}

/-- Thanks neither worked nor failed. -/
theorem lastSucceeded_affirm (hhistory : o.history = .affirm :: rest)
    (hlast : o.lastResult = some before) (h : result.names = before.names) :
    o.lastSucceeded ℝ result = false := by
  unfold lastSucceeded
  rw [hhistory, hlast]
  simp [h]

theorem questionFailed_affirm (hhistory : o.history = .affirm :: rest) :
    o.questionFailed ℝ result = false := by
  unfold questionFailed
  rw [hhistory]
  split <;> simp_all

/-- What would change the sandwich is never taken for a question. -/
theorem questionFailed_of_effect {R : Type} [Scalar R] (hhistory : o.history = last :: rest)
    (hlast : o.lastResult = some before) (heffect : (last.imagine R before).names ≠ before.names)
    (result : Sandwich) : o.questionFailed R result = false := by
  unfold questionFailed
  rw [hhistory, hlast]
  cases last with
  | affirm => rfl
  | finish => rfl
  | _ => simp only [beq_eq_false_iff_ne.mpr heffect, Bool.false_and]

/-- What would change the sandwich worked if what came is what was imagined. -/
theorem lastSucceeded_of_effect {R : Type} [Scalar R] (hhistory : o.history = last :: rest)
    (hlast : o.lastResult = some before) (heffect : (last.imagine R before).names ≠ before.names)
    (result : Sandwich) :
    o.lastSucceeded R result = decide (result.names = (last.imagine R before).names) := by
  unfold lastSucceeded
  rw [hhistory, hlast]
  by_cases hworked : result.names = (last.imagine R before).names
  · simp [hworked, heffect]
  · simp [hworked]

section

variable {i : Ingredient} {m n : Nat} (hx : Operation.Portion i n last)
  (hfollows : Follows d.names j n i.name) (hhistory : o.history = last :: rest)
  (hlast : o.lastResult = some before) (hbefore : before.names = d.names.take j)

include hx hfollows hbefore

/-- A portion that comes next is expected on top. -/
theorem names_imagine : (last.imagine ℝ before).names = d.names.take (j + n) := by
  rw [Operation.imagine_portion hx, hfollows.take, ← hbefore]
  simp [Operation.topped, Sandwich.names]

/-- A portion changes the sandwich. -/
theorem effect_portion : (last.imagine ℝ before).names ≠ before.names := by
  rw [names_imagine hx hfollows hbefore, hbefore]
  have := hfollows.pos
  exact take_ne_take (by omega) hfollows.fits

include hhistory hlast

/-- A portion is no question. -/
theorem questionFailed_portion : o.questionFailed ℝ result = false :=
  questionFailed_of_effect hhistory hlast (effect_portion hx hfollows hbefore) result

/-- **A portion worked** if all of it came. -/
theorem lastSucceeded_portion (hm : m = n ∨ m = 1) (hresult : result.names = d.names.take (j + m)) :
    o.lastSucceeded ℝ result = decide (m = n) := by
  have hpos := hfollows.pos
  have hfits := hfollows.fits
  rw [lastSucceeded_of_effect hhistory hlast (effect_portion hx hfollows hbefore),
    names_imagine hx hfollows hbefore, hresult, decide_eq_decide]
  refine ⟨fun hsame => ?_, fun heq => by rw [heq]⟩
  by_contra hne
  exact take_ne_take (a := j + m) (b := j + n) (by omega) hfits hsame.symm

end

end

/-- What is left of a calm customer that learned from its last request, and whether it may say
thanks. -/
structure Learned (d : Sandwich) (most k j : Nat) (polite : Bool) (t : Table ℝ) : Prop where
  craves : t.Craves d most
  failures : t.order.failures ≤ j
  polite : polite = true → k + 1 ≤ 2 * j

theorem ends_learn_affirm (h : t.Craves d most) (hfailures : t.order.failures ≤ j)
    (hsucceeded : t.order.lastSucceeded ℝ result = false) :
    Ends (learn .affirm result) t (fun p t' => Learned d most k j p.2 t') never := by
  unfold learn
  rw [ends_bind, ends_get, hsucceeded, if_neg Bool.false_ne_true]
  exact ⟨h, hfailures, fun hpolite => absurd hpolite Bool.false_ne_true⟩

/-- **A calm customer learns** from a portion: it worked, or a number was missed. -/
theorem ends_learn_portion (h : t.Craves d most) {i : Ingredient} {m n : Nat} {x : Operation}
    (hx : Operation.Portion i n x) (hfollows : Follows d.names j n i.name) (hm : m = n ∨ m = 1)
    (hk : k + 1 ≤ 2 * (j + m)) (hfailures : t.order.failures ≤ j)
    (hsucceeded : t.order.lastSucceeded ℝ result = decide (m = n)) :
    Ends (learn x result) t (fun p t' => Learned d most k (j + m) p.2 t') never := by
  have hpos := hfollows.pos
  have hfits := hfollows.fits
  have hcalm := h.calm
  unfold learn
  rw [ends_bind, ends_get, hsucceeded]
  split
  · obtain ⟨l, r, hgrown, hcounted⟩ := t.mind.personality.upgrade_spec x.skills
    have h₁ := h.withPersonality (p := relieved (t.mind.personality.practised l r))
      ⟨hcalm.allergies, hcalm.forgetfulness, hcalm.shyness, hcalm.spontaneity⟩
      (hcounted h.ready.counted)
    have h₂ := h₁.withFailures (n := 0) (by omega)
    simp only [ends_bind, Table.ends_change, Table.ends_reorder, ends_get, hgrown]
    refine (Table.ends_lucky (yields_roll _) h₂.ready.chance).imp ?_
    rintro polite _ ⟨-, c, hc, rfl⟩
    exact ⟨h₂.withChance hc, Nat.zero_le _, fun _ => hk⟩
  · rename_i hmissed
    have hchanges : x.changesSandwich = true := by cases hx <;> rfl
    rw [if_pos hchanges]
    simp only [ends_bind, Table.ends_change, Table.ends_reorder, ends_pure]
    have hne : m ≠ n := by simpa using hmissed
    have h₁ := h.withFailures (n := t.order.failures + 1) (by omega)
    refine ⟨h₁.withPersonality (p := annoyed t.mind.personality) ⟨hcalm.allergies,
      hcalm.forgetfulness, hcalm.shyness, hcalm.spontaneity⟩ h.ready.counted, ?_, ?_⟩
    · show t.order.failures + 1 ≤ j + m
      omega
    · exact fun hpolite => absurd hpolite Bool.false_ne_true

/-- **A turn of a calm customer** in view of a beginning of its sandwich. -/
theorem ends_next_calm (h : t.Stands d most k j) (hmost : 1 ≤ most)
    (hresult : result.names = d.names.take j) :
    Ends (next result) t (Requested d most k j) never := by
  have hk := h.stands.le
  obtain ⟨hcraves, hj, hstands⟩ := h
  -- whatever was learned, the customer proceeds
  have hproceed : ∀ (used : List Skill) (polite : Bool) (t' : Table ℝ),
      Learned d most k j polite t' →
      Ends (proceed result used polite) t' (Requested d most k j) never :=
    fun used polite t' hlearned => ends_proceed_calm hlearned.craves hmost hj hlearned.failures hk
      hresult used hlearned.polite
  unfold next
  rw [ends_bind, ends_get]
  cases hstands with
  | fresh hhistory hfailures =>
    simp only [hhistory]
    exact hproceed [] false t
      ⟨hcraves, hfailures.le, fun hpolite => absurd hpolite Bool.false_ne_true⟩
  | thanked hhistory hlast hs _ hfailures =>
    simp only [hhistory, hlast]
    rw [questionFailed_affirm hhistory, if_neg Bool.false_ne_true, ends_bind]
    have hsame := lastSucceeded_affirm hhistory hlast (hresult.trans hs.symm)
    exact (ends_learn_affirm hcraves hfailures hsame).imp fun p t' => hproceed p.1 p.2 t'
  | asked hhistory hlast hportion hfollows hs hm hk' hfailures =>
    simp only [hhistory, hlast]
    rw [questionFailed_portion hportion hfollows hhistory hlast hs, if_neg Bool.false_ne_true,
      ends_bind]
    have hworked := lastSucceeded_portion hportion hfollows hhistory hlast hs hm hresult
    exact (ends_learn_portion hcraves hportion hfollows hm hk' hfailures hworked).imp
      fun p t' => hproceed p.1 p.2 t'

end Order

end DeliTalk
