import DeliTalk.Proofs.Incidents
import DeliTalk.Proofs.Smooth

/-!
# Nothing is made from nothing

A server that opens has an empty sandwich and so many of every leaf of its tree. Whatever it serves
after that, the units of a leaf are on the sandwich, in the pantry, or were taken off, and there is
never anything else on the sandwich. Units taken off do not go back into the pantry.

* `Server.Reaches`: the states between two turns, with all that has happened.
* `Server.Keeps`: where the units are.
* `Server.reaches_keeps`: what one turn keeps, all turns keep.
* `Server.units_conserved`: how much there can be of a leaf.
-/

namespace DeliTalk

namespace Server

variable {R : Type} [Scalar R] {a : Agent R}

/-! ## 1. States -/

/-- Where a server can get to with limited stock, and all that has happened on the way. It opens
with an empty sandwich; it serves anything; and it may do other things that touch neither the
ingredients of the sandwich nor the pantry, such as hearing, pausing and saying goodbye. -/
inductive Reaches (a : Agent R) : Table R → Sandwich → List Incident → Prop where
  | opened {m : Mind R} (hlimited : m.personality.unlimitedStock = false) :
      Reaches a (opened a m) {} []
  | served {t t' : Table R} {s s' : Sandwich} {log : List Incident} {heard : Operation}
      {skills : Language R} {lex : List LexedWord} {answer : Option Operation}
      (h : Reaches a t s log)
      (hserve : (Order.serve heard skills lex s).perform t = (.ok (s', answer), t')) :
      Reaches a t' s' (log ++ t.incidents heard s)
  | aside {t t' : Table R} {s s' : Sandwich} {log : List Incident} (h : Reaches a t s log)
      (hinventory : t'.mind.personality.inventory = t.mind.personality.inventory)
      (hlimited : t'.mind.personality.unlimitedStock = t.mind.personality.unlimitedStock)
      (hsandwich : s'.ingredients = s.ingredients) : Reaches a t' s' log

/-! ## 2. What is kept -/

/-- Where the units are: those of a leaf on the sandwich, in the pantry or taken off, and none of
anything else. -/
structure Keeps (a : Agent R) (t : Table R) (s : Sandwich) (log : List Incident) : Prop where
  limited : t.mind.personality.unlimitedStock = false
  nonneg (name : String) : 0 ≤ t.mind.personality.units name
  leaf (name : String) : name ∈ a.lexicon.taxonomy.leafNames →
    s.count name + t.mind.personality.units name + log.count (.tookOff name) =
      a.config.stockPerIngredient
  foreign (name : String) : name ∉ a.lexicon.taxonomy.leafNames →
    s.count name = 0 ∧ t.mind.personality.units name = 0

omit [Scalar R] in
theorem keeps_opened (hk : 0 ≤ a.config.stockPerIngredient) {m : Mind R}
    (h : m.personality.unlimitedStock = false) : Keeps a (opened a m) {} [] := by
  have hleaf : ∀ name ∈ a.lexicon.taxonomy.leafNames,
      (opened a m).mind.personality.units name = a.config.stockPerIngredient :=
    fun name hname => (m.personality.units_restock _ _ name).trans (if_pos hname)
  have hforeign : ∀ name ∉ a.lexicon.taxonomy.leafNames,
      (opened a m).mind.personality.units name = 0 :=
    fun name hname => (m.personality.units_restock _ _ name).trans (if_neg hname)
  refine ⟨h, fun name => ?_, fun name hname => ?_, fun name hname => ⟨rfl, hforeign name hname⟩⟩
  · by_cases hname : name ∈ a.lexicon.taxonomy.leafNames
    · rwa [hleaf name hname]
    · rw [hforeign name hname]
  · rw [hleaf name hname]
    simp [Sandwich.count, Sandwich.names]

/-- **One turn** moves units from the pantry to the sandwich and off it, and makes none. -/
theorem Keeps.served {t t' : Table R} {s s' : Sandwich} {log : List Incident} {heard : Operation}
    {skills : Language R} {lex : List LexedWord} {answer : Option Operation}
    (h : Keeps a t s log)
    (hserve : (Order.serve heard skills lex s).perform t = (.ok (s', answer), t')) :
    Keeps a t' s' (log ++ t.incidents heard s) := by
  obtain ⟨rfl, -, l, r, hp⟩ := Order.serve_ok hserve
  have haccounts := t.accounts heard s
  have hlimited : t.mind.personality.willing.unlimitedStock = false := h.limited
  have hcount : ∀ name, (t.edited heard s).1.count name +
      (t.incidents heard s).count (.tookOff name) =
        s.count name + (t.incidents heard s).count (.put name) := haccounts.count
  have hmoved : ∀ name, (t.edited heard s).2.units name + (t.incidents heard s).count (.put name) =
      t.mind.personality.units name := fun name => haccounts.units name hlimited
  have hunits : ∀ name, t'.mind.personality.units name = (t.edited heard s).2.units name := by
    intro name
    rw [hp]
    rfl
  refine ⟨?_, fun name => ?_, fun name hname => ?_, fun name hname => ?_⟩
  · rw [hp]
    exact haccounts.limited.trans hlimited
  · rw [hunits]
    exact haccounts.nonneg name hlimited (h.nonneg name)
  · have hleaf := h.leaf name hname
    have hcount := hcount name
    have hmoved := hmoved name
    rw [hunits, List.count_append]
    push_cast
    omega
  · obtain ⟨hnone, hzero⟩ := h.foreign name hname
    -- what was never stocked cannot be put on
    have hput : (t.incidents heard s).count (.put name) = 0 := by
      refine List.count_eq_zero.mpr fun hput => ?_
      have hstock := haccounts.stocked name hput
      have hunits : t.mind.personality.willing.units name = 0 := hzero
      unfold Personality.stock at hstock
      rw [hlimited, if_neg Bool.false_ne_true, hunits] at hstock
      cases hstock
    have hcount := hcount name
    have hmoved := hmoved name
    rw [hunits]
    omega

/-- **Every state** a server can get to keeps all units. -/
theorem reaches_keeps (hk : 0 ≤ a.config.stockPerIngredient) {t : Table R} {s : Sandwich}
    {log : List Incident} (h : Reaches a t s log) : Keeps a t s log := by
  induction h with
  | opened hlimited => exact keeps_opened hk hlimited
  | served _ hserve ih => exact ih.served hserve
  | @aside t t' s s' log _ hinventory hlimited hsandwich ih =>
    have hunits : ∀ name, t'.mind.personality.units name = t.mind.personality.units name :=
      fun name => by rw [Personality.units, Personality.units, hinventory]
    have hcount : ∀ name, s'.count name = s.count name := fun name => by
      rw [Sandwich.count, Sandwich.count, Sandwich.names, Sandwich.names, hsandwich]
    refine ⟨hlimited.trans ih.limited, fun name => ?_, fun name hname => ?_, fun name hname => ?_⟩
    · rw [hunits]
      exact ih.nonneg name
    · rw [hunits, hcount]
      exact ih.leaf name hname
    · rw [hunits, hcount]
      exact ih.foreign name hname

/-- **Nothing is made from nothing.** With so many of every leaf at the beginning, whatever is served,
no stock falls below zero; of no leaf is there more on the sandwich and in the pantry than at the
beginning, and exactly as much as long as none was taken off; and only leaves are on the sandwich. -/
theorem units_conserved {t : Table R} {s : Sandwich} {log : List Incident} (h : Reaches a t s log)
    (hk : 0 ≤ a.config.stockPerIngredient) :
    (∀ name ∈ a.lexicon.taxonomy.leafNames, 0 ≤ t.mind.personality.units name ∧
      s.count name + t.mind.personality.units name ≤ a.config.stockPerIngredient ∧
      (.tookOff name ∉ log →
        s.count name + t.mind.personality.units name = a.config.stockPerIngredient)) ∧
    ∀ name ∈ s.names, name ∈ a.lexicon.taxonomy.leafNames := by
  have hkeeps := reaches_keeps hk h
  refine ⟨fun name hname => ⟨hkeeps.nonneg name, ?_, fun hnone => ?_⟩, fun name hname => ?_⟩
  · have := hkeeps.leaf name hname
    omega
  · have hleaf := hkeeps.leaf name hname
    rw [List.count_eq_zero.mpr hnone] at hleaf
    omega
  · by_contra hforeign
    exact List.count_eq_zero.mp (hkeeps.foreign name hforeign).1 hname

namespace House

open Negotiation.House

/-- A tomato. -/
def tomato : Ingredient := Taxonomy.House.item "tomato" "to"

/-- Somebody wants a tomato from a machine of the house that has just opened. -/
theorem edited_tomato : ((opened machine mind).edited (.add tomato .top) {}).1.names = ["tomato"] ∧
    (opened machine mind).incidents (.add tomato .top) {} = [.put "tomato"] := by
  have hkind : (opened machine mind).spiteful = false := Table.not_spiteful rfl proper
  rw [Table.edited, Table.incidents, Table.heeds_of_kind hkind, Table.primed_of_kind hkind]
  exact ⟨by decide +kernel, by decide +kernel⟩

/-- One tomato on the sandwich, nine left. -/
theorem units_tomato : ∃ (t : Table ℝ) (s : Sandwich) (log : List Incident),
    Reaches machine t s log ∧ 0 ≤ machine.config.stockPerIngredient ∧ s.names = ["tomato"] ∧
      t.mind.personality.units "tomato" = 9 := by
  have hserves : Order.Serves {} (opened machine mind) :=
    ⟨Sandwich.plain_empty, counted, proper⟩
  obtain ⟨⟨s, answer⟩, t, hserve, -⟩ :=
    (Order.ends_serve hserves (.add tomato .top) .unused []).exists
  have hreaches := (Reaches.opened rfl).served hserve
  have hk : 0 ≤ machine.config.stockPerIngredient := by decide
  obtain ⟨hnames, hlog⟩ := edited_tomato
  rw [← (Order.serve_ok hserve).1] at hnames
  rw [hlog] at hreaches
  have hunits := ((units_conserved hreaches hk).1 "tomato" (by decide +kernel)).2.2 (by decide)
  have hcount : s.count "tomato" = 1 := by
    rw [Sandwich.count, hnames]
    rfl
  have hstock : machine.config.stockPerIngredient = 10 := rfl
  rw [hcount, hstock] at hunits
  exact ⟨t, s, _, hreaches, hk, hnames, by omega⟩

end House

end Server

end DeliTalk
