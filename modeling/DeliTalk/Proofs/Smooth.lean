import DeliTalk.Proofs.Cravings
import DeliTalk.Proofs.SoundLanguage

/-!
# The smooth course of a negotiation

A calm customer and a server without spite that has enough in stock keep to a smooth course:
whatever either of them hears or misses, what there is of the sandwich is the beginning of what the
customer wants.

* `Course.smooth`, `Course.smooth_kept`: the course.
* `Negotiation.Smooth`: what makes a negotiation frictionless.
* `Negotiation.settle_of_smooth`: how a frictionless negotiation ends.
-/

namespace DeliTalk

open Act

/-! ## 1. The course -/

namespace Order.Requested

variable {d : Sandwich} {most k j : Nat} {x : Option Operation} {t : Table ℝ}

theorem craves (h : Order.Requested d most k j x t) : t.Craves d most := by
  cases x with
  | none => exact h.2
  | some x =>
    rcases h with ⟨-, hstands⟩ | ⟨n, i, -, -, -, -, hstands⟩
    · exact hstands.craves
    · exact (hstands n (Or.inl rfl)).craves

theorem withChance (h : Order.Requested d most k j x t) {c : Chance ℝ} (hc : c.Proper) :
    Order.Requested d most k j x (t.withChance c) := by
  cases x with
  | none => exact ⟨h.1, h.2.withChance hc⟩
  | some x =>
    rcases h with ⟨hx, hstands⟩ | ⟨n, i, hportion, hi, hfollows, hn, hstands⟩
    · exact Or.inl ⟨hx, hstands.craves.withChance hc, hstands.fits, hstands.stands⟩
    · refine Or.inr ⟨n, i, hportion, hi, hfollows, hn, fun m hm => ?_⟩
      have hm' := hstands m hm
      exact ⟨hm'.craves.withChance hc, hm'.fits, hm'.stands⟩

end Order.Requested

theorem Operation.Portion.ne_finish {i : Ingredient} {n : Nat} {x : Operation}
    (h : Operation.Portion i n x) : x ≠ .finish := by
  cases h <;> simp

/-- What is said on the way to a sandwich: nothing, a goodbye, thanks, or a portion of what is
wanted. -/
def Sandwich.Asks (d : Sandwich) : Option Operation → Prop
  | none => True
  | some x => x = .finish ∨ x = .affirm ∨
    ∃ n i, Operation.Portion i n x ∧ i ∈ d.ingredients ∧ n ≤ d.names.length

theorem Order.Requested.asks {d : Sandwich} {most k j : Nat} {x : Option Operation} {t : Table ℝ}
    (h : Order.Requested d most k j x t) : d.Asks x := by
  cases x with
  | none => exact True.intro
  | some x =>
    rcases h with ⟨hx, -⟩ | ⟨n, i, hportion, hi, hfollows, -, -⟩
    · exact Or.inr (Or.inl hx)
    · have hfits := hfollows.fits
      exact Or.inr (Or.inr ⟨n, i, hportion, hi, by omega⟩)

namespace Course

/-- The course of a frictionless negotiation: what there is of the sandwich is the beginning of what
the customer wants, the server can go on with it, and requests bring half a portion each. -/
def smooth (tree : Taxonomy) (a : Agent ℝ) (d : Sandwich) (most : Nat) : Course where
  before k s := ∃ j, s.customer.Stands d most k j ∧ s.server.Hosts d.names j ∧
    s.sandwich = tree.stack (d.names.take j)
  asked k x s := ∃ j, Order.Requested d most k j x s.customer ∧ s.server.Hosts d.names j ∧
    s.sandwich = tree.stack (d.names.take j) ∧ k ≤ 2 * j ∧ j ≤ d.names.length ∧
    (x ≠ none → (k : Int) < a.config.maxTurns)
  heard k r s := ∃ j m reading, r = some reading ∧ s.customer.Stands d most (k + 1) (j + m) ∧
    s.server.Hosts d.names j ∧ s.sandwich = tree.stack (d.names.take j) ∧
    ((m = 0 ∧ reading.operation = .affirm) ∨ ∃ name, Follows d.names j m name ∧
      Operation.Portion (tree.leafOf name) m reading.operation)
  served k y s := y = none ∧ ∃ j, s.customer.Stands d most (k + 1) j ∧
    s.server.Hosts d.names j ∧ s.sandwich = tree.stack (d.names.take j)
  sends m := ∃ x ts, d.Asks x ∧ Agent.speak a.lexicon x = .ok ts ∧
    (m = Agent.message ts none ∨ ∃ j ≤ d.names.length, ∃ complete, m = Agent.message ts
      (some { tree.stack (d.names.take j) with complete := complete }))

section

variable {t : Taxonomy} {words : List (String × Entry)} (h : Lexicon.Sound t words)
  {a b : Agent ℝ} (hp : Partners t words a b) {d : Sandwich} {most : Nat}
  (hleaves : ∀ name ∈ d.names, name ∈ t.leafNames)
  (hnumbers : ∀ n : Nat, 1 ≤ n → n ≤ most → ∃ w, a.lexicon.wordForNumber (n : Int) = .ok w)

include h hp hleaves hnumbers

/-- A request of a calm customer can be said, and is heard as what it is or with its number
missed. -/
theorem smooth_hears {k j : Nat} {x : Operation} {s : Scene}
    (hx : Order.Requested d most k j (some x) s.customer) (hhosts : s.server.Hosts d.names j)
    (hs : s.sandwich = t.stack (d.names.take j)) :
    ∃ ts, Agent.speak a.lexicon (some x) = .ok ts ∧ ts ≠ [] ∧
      Ends (b.understand (Phrase.text? ts)) s.server.mind (fun r m =>
        Table.Rests (fun t' => (smooth t a d most).heard k r { s with server := t' })
          ⟨s.server.order, m⟩) never := by
  rcases hx with ⟨rfl, hstands⟩ | ⟨n, i, hportion, hi, hfollows, hn, hstands⟩
  · obtain ⟨w, hspeak, hhears⟩ := Agent.hears_alone h hp.customer hp.server (x := .affirm)
      (u := .affirmation) (by simp) rfl fun w hw => by simp [Sentence.single?, hw]
    obtain ⟨r, hperform, hr⟩ := hhears s.server.mind
    refine ⟨[w], hspeak, by simp, ends_of_perform hperform ⟨hhosts.ready.chance, fun c hc => ?_⟩⟩
    exact ⟨j, 0, r, rfl, hstands, hhosts.withChance hc, hs, Or.inl ⟨rfl, hr⟩⟩
  · have hleaf : i.name ∈ t.leafNames := hleaves _ hfollows.mem
    have hpos := hfollows.pos
    obtain ⟨ts, hspeak, hne, hhears⟩ := Agent.hears_portion h hp.customer hp.server hleaf
      (by omega) hportion (hnumbers n hpos hn)
    refine ⟨ts, hspeak, hne, ?_⟩
    obtain ⟨r, m', m, hperform, ⟨c, hlater, rfl⟩, hr, hm⟩ := hhears s.server.mind
    refine ends_of_perform hperform ⟨hlater.proper hhosts.ready.chance, fun c' hc' => ?_⟩
    refine ⟨j, m, r, rfl, hstands m hm, hhosts.withChance hc', hs, Or.inr ⟨i.name, ?_, hr⟩⟩
    exact hfollows.le (by omega) (by omega)

/-- **A calm customer and a server without spite keep to the smooth course.** -/
theorem smooth_kept (hmost : 1 ≤ most) (hturns : 2 * (d.names.length : Int) ≤ a.config.maxTurns) :
    (smooth t a d most).Kept a b where
  stops {k s} := by
    rintro ⟨j, hstands, hhosts, hs⟩ hdone
    have hk := hstands.stands.le
    have hfits := hstands.fits
    exact ⟨j, ⟨by omega, hstands.craves⟩, hhosts, hs, hk, hfits, fun hne => absurd rfl hne⟩
  asks {k s} := by
    rintro ⟨j, hstands, hhosts, hs⟩ hlt
    have hk := hstands.stands.le
    have hfits := hstands.fits
    have hnames : s.sandwich.names = d.names.take j := by
      rw [hs]
      exact h.tree.names_stack fun name hname => hleaves name (List.mem_of_mem_take hname)
    refine (Order.ends_next_calm hstands hmost hnames).imp fun x t' hx => ?_
    have hasked : (smooth t a d most).asked k x { s with customer := t' } :=
      ⟨j, hx, hhosts, hs, hk, hfits, fun _ => hlt⟩
    cases x with
    | none => exact hasked
    | some x =>
      obtain ⟨ts, hts, hne, -⟩ := smooth_hears h hp hleaves hnumbers
        (s := { s with customer := t' }) hx hhosts hs
      exact ⟨ts, hts, fun _ => hasked, fun hnil => absurd hnil hne⟩
  rests {k x s} := by
    rintro ⟨j, hx, hrest⟩
    exact ⟨hx.craves.ready.chance, fun c hc => ⟨j, hx.withChance hc, hrest⟩⟩
  parts {k x s} := by
    rintro ⟨j, hx, hhosts, hrest⟩
    exact ⟨hhosts.ready.chance, fun c hc => ⟨j, hx, hhosts.withChance hc, hrest⟩⟩
  requests {k x s} := by
    rintro ⟨j, hx, hhosts, hs, -, -, hlt⟩
    obtain ⟨ts, hts, hne, -⟩ := smooth_hears h hp hleaves hnumbers hx hhosts hs
    refine ⟨hlt (by simp), ?_, ts, hts, hne⟩
    rcases hx with ⟨rfl, -⟩ | ⟨n, i, hportion, -⟩
    · simp
    · exact hportion.ne_finish
  hears {k x s ts} := by
    rintro ⟨j, hx, hhosts, hs, -⟩ hts
    obtain ⟨us, hus, -, hhears⟩ := smooth_hears h hp hleaves hnumbers hx hhosts hs
    rw [Except.ok.inj (hts.symm.trans hus)]
    exact hhears
  ignores {k s} := by
    rintro ⟨j, m, r, hr, -⟩
    cases hr
  serves {k r s} := by
    rintro ⟨j, m, reading, hreading, hstands, hhosts, hs, hoperation⟩
    cases hreading
    rw [hs]
    rcases hoperation with ⟨rfl, hr⟩ | ⟨name, hfollows, hportion⟩
    · rw [hr]
      refine ⟨by simp, (Order.ends_serve_affirm hhosts _ _ _).imp ?_⟩
      rintro _ t' ⟨rfl, hhosts'⟩
      exact ⟨rfl, j, hstands, hhosts', rfl⟩
    · refine ⟨hportion.ne_finish, ?_⟩
      refine (Order.ends_serve_portion h.tree hleaves hhosts hfollows hportion _ _).imp ?_
      rintro _ t' ⟨rfl, hhosts'⟩
      exact ⟨rfl, j + m, hstands, hhosts', rfl⟩
  heeds {k y s ts} := by
    rintro ⟨rfl, j, hstands, hhosts, hs⟩ hts
    cases hts
    refine ⟨?_, ?_⟩
    · rw [hs]
      exact t.plain_stack _
    · exact ⟨j, hstands, hhosts, hs⟩
  plain {k x s} := by
    rintro ⟨j, -, -, hs, -⟩
    rw [hs]
    exact t.plain_stack _
  greets {ts} hts :=
    ⟨⟨some .finish, ts, Or.inl rfl, hts, Or.inl rfl⟩,
      ⟨some .finish, ts, Or.inl rfl, hts, Or.inr ⟨0, Nat.zero_le _, false, rfl⟩⟩⟩
  tells {k x s ts} := by
    rintro ⟨j, hx, -⟩ hts
    refine ⟨_, ts, ?_, hts, Or.inl rfl⟩
    cases x with
    | none => exact Or.inl rfl
    | some x => exact hx.asks
  answers {k y s ts} := by
    rintro ⟨rfl, j, hstands, -, hs⟩ hts
    refine ⟨none, ts, True.intro, hts, Or.inr ⟨j, hstands.fits, false, ?_⟩⟩
    rw [hs]
    rfl
  finishes {k s ts} := by
    rintro ⟨j, -, -, hs, -, hj, -⟩ hts
    refine ⟨some .finish, ts, Or.inl rfl, hts, Or.inr ⟨j, hj, true, ?_⟩⟩
    rw [hs]

end

end Course

/-! ## 2. Frictionless negotiations -/

/-- Whether there are words for all numbers from one to the largest. -/
def Lexicon.CountsUp (l : Lexicon) : Prop :=
  ∃ largest, l.largestNumber = .ok largest ∧ 1 ≤ largest ∧
    ∀ n : Nat, 1 ≤ n → n ≤ largest → ∃ w, l.wordForNumber (n : Int) = .ok w

/-- What a register has under a name after some names were given the same value. -/
theorem Register.find?_foldl_put {V : Type} (name : String) (value : V) :
    ∀ (names : List String) (r : Register V),
      find? name ((names.map fun name => (name, value)).foldl (fun r p => put p.1 p.2 r) r) =
        if name ∈ names then some value else find? name r
  | [], _ => rfl
  | other :: rest, r => by
    rw [List.map_cons, List.foldl_cons, find?_foldl_put name value rest]
    by_cases hrest : name ∈ rest
    · rw [if_pos hrest, if_pos (List.mem_cons_of_mem other hrest)]
    · rw [if_neg hrest]
      by_cases heq : name = other
      · rw [if_pos (heq ▸ List.mem_cons_self), heq, find?_put_self]
      · rw [if_neg fun hm => hrest ((List.mem_cons.mp hm).resolve_left heq),
          find?_put_of_ne value heq]

/-- A restocked pantry has the same amount of everything it was restocked with, and nothing else. -/
theorem Personality.units_restock {R : Type} (p : Personality R) (names : List String)
    (amount : Int) (name : String) :
    (p.restock names amount).units name = if name ∈ names then amount else 0 := by
  unfold units restock Register.ofList
  rw [Register.find?_foldl_put]
  split <;> rfl

namespace Negotiation

/-- A negotiation without friction: a calm customer that dreams of leaves and has turns and patience
enough, a server without spite, and enough in stock. -/
structure Smooth (t : Taxonomy) (a server : Agent ℝ) (n : Negotiation ℝ) (d : Sandwich) :
    Prop where
  draws : n.customer.chance.Proper
  serverDraws : n.server.chance.Proper
  calm : n.customer.personality.Calm
  kind : n.server.personality.spite = 0
  dream : ∃ c, (Order.dream a.lexicon.taxonomy n.customer.personality a.config.minFillings
    a.config.maxFillings).perform n.customer.chance = (.ok d, c)
  leaves : ∀ name ∈ d.names, name ∈ t.leafNames
  stock : n.server.personality.unlimitedStock = true ∨
    ∀ name ∈ d.names, (d.names.count name : Int) ≤ server.config.stockPerIngredient
  patience : (d.names.length : Int) ≤ a.config.maxFailures
  turns : 2 * (d.names.length : Int) ≤ a.config.maxTurns

variable {t : Taxonomy} {words : List (String × Entry)} {a server : Agent ℝ} {n : Negotiation ℝ}
  {d : Sandwich}

/-- What is dreamt of is not empty. -/
theorem Smooth.dreamt (hn : n.Smooth t a server d) : ∃ c : Chance ℝ, c.Proper ∧
    (Order.dream a.lexicon.taxonomy n.customer.personality a.config.minFillings
      a.config.maxFillings).perform n.customer.chance = (.ok d, c) ∧ 0 < d.names.length := by
  obtain ⟨c, hdream⟩ := hn.dream
  obtain ⟨d', c', hdream', hc, hne⟩ := (Order.yields_dream a.lexicon.taxonomy
    n.customer.personality a.config.minFillings a.config.maxFillings _ hn.draws).exists
  rw [hdream] at hdream'
  cases hdream'
  refine ⟨c, hc, hdream, ?_⟩
  unfold Sandwich.names
  rw [List.length_map]
  exact List.length_pos_iff.mpr hne

/-- A server that has just opened has everything that is wanted. -/
theorem Smooth.hosts (hn : n.Smooth t a server d) (htree : (joining server a).lexicon.taxonomy = t)
    (hcounted : n.server.personality.Counted) :
    (Server.opened (joining server a) n.server).Hosts d.names 0 := by
  refine ⟨rfl, hn.kind, ⟨hcounted, hn.serverDraws⟩, hn.stock.imp id fun hstock name hname => ?_⟩
  have hunits : (Server.opened (joining server a) n.server).mind.personality.units name =
      server.config.stockPerIngredient := by
    have hleaf : name ∈ (joining server a).lexicon.taxonomy.leafNames := by
      rw [htree]
      exact hn.leaves name hname
    exact (Personality.units_restock _ _ _ name).trans (if_pos hleaf)
  rw [hunits, List.take_zero, List.count_nil]
  have := hstock name hname
  omega

/-- **A frictionless negotiation** ends with the sandwich that was dreamt of, unless it is
spoiled. -/
theorem settle_of_smooth (h : Lexicon.Sound t words)
    (hp : Partners t words a (joining server a)) (hcounts : a.lexicon.CountsUp)
    (hn : n.Smooth t a server d) (hcustomer : n.customer.personality.Counted)
    (hserver : n.server.personality.Counted) : ∃ most,
    (settle a server n).Spoiled (a.Unfit (Course.smooth t a d most).sends)
      (a.Unfit (Course.smooth t a d most).sends) ∨
    ∃ turns w o, a.lexicon.wordForUsage .greeting = .ok w ∧
      (settle a server n).Proper a (joining server a) n.records (Phrase.render [w]) turns o
        (t.stack d.names) ∧
      o.desired = d ∧ o.gaveUp = false ∧ turns ≤ 2 * d.names.length + 1 := by
  obtain ⟨largest, hlargest, hone, hnumbers⟩ := hcounts
  obtain ⟨c, hc, hdream, hpos⟩ := hn.dreamt
  obtain ⟨w, hw, -⟩ := Agent.speak_usage h (g := a.grammar) hp.customer.lexicon (x := .finish)
    (u := .greeting) (by simp) rfl
  have hhosts := hn.hosts (by rw [hp.server.lexicon]; rfl) hserver
  have hcraves : (⟨Customer.placed a d largest, { n.customer with chance := c }⟩ :
      Table ℝ).Craves d largest := by
    refine ⟨hn.calm, ⟨hcustomer, hc⟩, rfl, ?_, hn.patience, hpos⟩
    show max 1 (largest : Int) = largest
    omega
  have hbefore : Table.Rests (fun s => (Course.smooth t a d largest).before 0
      ⟨⟨Customer.placed a d largest, { n.customer with chance := c }⟩, s, {}⟩)
      (Server.opened (joining server a) n.server) :=
    ⟨hhosts.ready.chance, fun c' hc' => ⟨0, ⟨hcraves, Nat.zero_le _, .fresh rfl rfl⟩,
      hhosts.withChance hc', rfl⟩⟩
  refine ⟨largest, ?_⟩
  rcases settle_of_kept h hp (Course.smooth_kept h hp hn.leaves hnumbers hone hn.turns) hw hlargest
    hdream hbefore with hspoiled | ⟨k, s, ⟨j, ⟨hj, hwants⟩, -, hs, hk, -⟩, hproper⟩
  · exact Or.inl hspoiled
  · subst hj
    rw [hs, List.take_length] at hproper
    exact Or.inr ⟨k + 1, w, s.customer.order, hw, hproper, hwants.desired, hwants.not_gaveUp,
      by omega⟩

/-! ## 3. In the house -/

namespace House

/-- A machine of the house that dreams of bread and nothing else. -/
noncomputable def machine : Agent ℝ :=
  ⟨Lexicon.house, { (Config.standard : Config ℝ) with minFillings := 0, maxFillings := 0 }, 1,
    "house"⟩

/-- A calm mind without spite whose draws are all zero. -/
noncomputable def mind : Mind ℝ :=
  ⟨{ (Personality.standard : Personality ℝ) with
      forgetfulness := 0, shyness := 0, spontaneity := 0, spite := 0 },
    .scripted (fun _ => 0) 0⟩

/-- Two such minds. -/
noncomputable def visit : Negotiation ℝ := { customer := mind, server := mind }

/-- What they dream of. -/
def bread : Sandwich where
  ingredients := [Taxonomy.House.item "white-bread-bottom" "li",
    Taxonomy.House.item "white-bread-top" "lu"]

theorem speaks : machine.Speaks Taxonomy.house Lexicon.houseWords := ⟨rfl, rfl⟩

theorem countsUp : machine.lexicon.CountsUp := by
  have hwords : ∀ n ∈ List.range' 1 5, (Lexicon.house.wordForNumber ((n : Nat) : Int)).isOk := by
    decide +kernel
  refine ⟨5, by decide +kernel, by omega, fun n hpos hle => ?_⟩
  have hword := hwords n (List.mem_range'_1.mpr ⟨hpos, by omega⟩)
  show ∃ w, Lexicon.house.wordForNumber (n : Int) = .ok w
  cases hw : Lexicon.house.wordForNumber (n : Int) with
  | ok w => exact ⟨w, rfl⟩
  | error e =>
    rw [hw] at hword
    cases hword

theorem patience : Agent.answerTime < machine.config.turnTimeout := by
  show (0.00001 : ℝ) < 30.0
  norm_num

theorem time : 0 < machine.config.turnTimeout := by
  show (0 : ℝ) < 30.0
  norm_num

theorem counted : mind.personality.Counted := fun s => by
  show -1 ≤ (0 : Int)
  omega

theorem proper : mind.chance.Proper := fun _ => ⟨le_refl 0, zero_lt_one⟩

/-- A source of zeros gives the first of several values. -/
theorem perform_choose_zero {α : Type} (x : α) (xs : List α) (k : Nat) :
    (choose (x :: xs)).perform (.scripted (fun _ => (0 : ℝ)) k) =
      (.ok x, .scripted (fun _ => 0) (k + 1)) := by
  have hdraw : (drawBelow (x :: xs).length).perform (.scripted (fun _ => (0 : ℝ)) k) =
      (.ok 0, .scripted (fun _ => 0) (k + 1)) := by
    show ((if Scalar.isFinite ((0 : ℝ) * Scalar.ofNat (x :: xs).length) = true
      then Except.ok (Scalar.floor ((0 : ℝ) * Scalar.ofNat (x :: xs).length))
      else .error .oversized), _) = _
    rw [zero_mul, Scalar.isFinite_real, if_pos rfl, Scalar.floor_real, Int.floor_zero]
  unfold choose
  rw [if_neg (by simp), perform_bind, hdraw]
  rfl

/-- Whoever is to put nothing on a bread puts nothing on it. -/
theorem fillingsFor_none (p : Personality ℝ) : Order.fillingsFor p 0 0 = .ok 0 := by
  show (if Scalar.isFinite (Scalar.ofInt 0 : ℝ) = true
    then Except.ok (0 + nearestEven ((1.0 - p.laziness) * ((0 : Int) : ℝ) * 10 ^ 0))
    else .error .oversized) = _
  rw [Scalar.isFinite_real, if_pos rfl]
  simp [nearestEven]

/-- A source of zeros gives the first bread, whatever should be on it. -/
theorem perform_bread (required : List Ingredient) (k : Nat) :
    (Taxonomy.house.randomSandwich 0 [] required).perform (.scripted (fun _ => (0 : ℝ)) k) =
      (.ok bread, .scripted (fun _ => 0) (k + 2)) := by
  have hbread := perform_choose_zero (Taxonomy.House.item "white-bread-bottom" "li",
    Taxonomy.House.item "white-bread-top" "lu") Taxonomy.House.breads.tail k
  have hbreads : Taxonomy.house.breads = (Taxonomy.House.item "white-bread-bottom" "li",
    Taxonomy.House.item "white-bread-top" "lu") :: Taxonomy.House.breads.tail := rfl
  have hrequired : Taxonomy.requiredFillings required [] 0 = [] := by
    simp [Taxonomy.requiredFillings, Taxonomy.front]
  unfold Taxonomy.randomSandwich Taxonomy.randomBread
  rw [perform_bind, hbreads, hbread]
  simp only
  rw [hrequired, perform_bind]
  show (do
    let background ← choose backgroundColors
    return ({ ingredients := bread.ingredients, background := background } : Sandwich) :
      Luck ℝ Sandwich).perform (.scripted (fun _ => (0 : ℝ)) (k + 1)) = _
  rw [perform_bind]
  unfold backgroundColors
  rw [perform_choose_zero]
  rfl

/-- Whoever is allergic to nothing dreams of that bread, whatever it plans. -/
theorem perform_dream {p : Personality ℝ} (hallergies : p.allergies = []) {c : Chance ℝ}
    {planned : List Ingredient} {k : Nat} (hplanned :
      (Order.rollPlanned p p.favorites).perform c = (.ok planned, .scripted (fun _ => 0) k)) :
    (Order.dream Taxonomy.house p 0 0).perform c = (.ok bread, .scripted (fun _ => 0) (k + 2)) := by
  unfold Order.dream
  rw [perform_bind, perform_ofExcept, fillingsFor_none]
  simp only
  rw [perform_bind, hplanned, hallergies]
  exact perform_bread planned k

theorem dreams : (Order.dream machine.lexicon.taxonomy mind.personality machine.config.minFillings
    machine.config.maxFillings).perform mind.chance = (.ok bread, .scripted (fun _ => 0) 2) :=
  perform_dream rfl rfl

/-- Two such minds negotiate without friction. -/
theorem visit_smooth : visit.Smooth Taxonomy.house machine machine bread where
  draws := proper
  serverDraws := proper
  calm := ⟨rfl, rfl, rfl, rfl⟩
  kind := rfl
  dream := ⟨_, dreams⟩
  leaves := by decide +kernel
  stock := Or.inr (by decide +kernel)
  patience := by decide
  turns := by decide

/-- What is asked for on the way to some bread. -/
def requests : List (Option Operation) :=
  [none, some .finish, some .affirm] ++ bread.ingredients.flatMap fun i =>
    some (.add i .top) :: (List.range 3).map fun n => some (.repeated n (.add i .top))

/-- What is shown on the way to some bread. -/
def sights : List (Option Sandwich) :=
  none :: (List.range 3).flatMap fun j => [false, true].map fun complete =>
    some { Taxonomy.house.stack (bread.names.take j) with complete := complete }

/-- Whether what is said is short enough for a frame of the house, whatever is shown with it. -/
def isShort (x : Option Operation) : Bool :=
  match Agent.speak Lexicon.house x with
  | .ok ts => sights.all fun s => 4 * (Frame.body ℝ (Agent.message ts s)).length ≤ 4096
  | .error _ => true

theorem isShort_of_mem : ∀ x ∈ requests, isShort x = true := by decide +kernel

theorem mem_requests {x : Option Operation} (h : bread.Asks x) : x ∈ requests := by
  cases x with
  | none => simp [requests]
  | some x =>
    rcases h with rfl | rfl | ⟨n, i, hportion, hi, hn⟩
    · simp [requests]
    · simp [requests]
    · have hn : n < 3 := Nat.lt_succ_of_le hn
      refine List.mem_append_right _ (List.mem_flatMap.mpr ⟨i, hi, ?_⟩)
      cases hportion with
      | once => exact List.mem_cons_self
      | several n =>
        exact List.mem_cons_of_mem _ (List.mem_map.mpr ⟨n, List.mem_range.mpr hn, rfl⟩)

theorem mem_sights {j : Nat} (hj : j < 3) (complete : Bool) :
    some { Taxonomy.house.stack (bread.names.take j) with complete := complete } ∈ sights := by
  refine List.mem_cons_of_mem _ (List.mem_flatMap.mpr ⟨j, List.mem_range.mpr hj, ?_⟩)
  exact List.mem_map.mpr ⟨complete, by cases complete <;> simp, rfl⟩

/-- What is said and shown on the way to some bread has a frame. -/
theorem framed_of_mem {x : Option Operation} (hx : x ∈ requests) {s : Option Sandwich}
    (hs : s ∈ sights) {ts : List Tagged} (hts : Agent.speak Lexicon.house x = .ok ts) :
    ∃ frame, machine.Frames (Agent.message ts s) frame := by
  have hshort := isShort_of_mem x hx
  unfold isShort at hshort
  rw [hts] at hshort
  have hle := of_decide_eq_true (List.all_eq_true.mp hshort s hs)
  have hsize : machine.config.frameSize = 4096 := rfl
  refine Frame.exists_encode ?_ (by rw [hsize]; decide)
  rw [hsize]
  exact_mod_cast hle

/-- Every message on the way has a frame. -/
theorem framed {most : Nat} {m : Message}
    (h : (Course.smooth Taxonomy.house machine bread most).sends m) :
    ∃ frame, machine.Frames m frame := by
  obtain ⟨x, ts, hx, hts, hm⟩ := h
  obtain ⟨s, hs, rfl⟩ : ∃ s ∈ sights, m = Agent.message ts s := by
    rcases hm with rfl | ⟨j, hj, complete, rfl⟩
    · exact ⟨none, List.mem_cons_self, rfl⟩
    · exact ⟨_, mem_sights (Nat.lt_succ_of_le hj) complete, rfl⟩
  exact framed_of_mem (mem_requests hx) hs hts

/-- **All frames fit** when two such minds negotiate. -/
theorem visit_fits : (settle machine machine visit).Fits machine := by
  have hp := partners_joining speaks speaks (by decide) patience time
  obtain ⟨most, hend⟩ :=
    settle_of_smooth Lexicon.sound_house hp countsUp visit_smooth counted counted
  refine Settlement.fits_of_framed (M := (Course.smooth Taxonomy.house machine bread most).sends)
    (fun m hm => framed hm) (hend.imp id ?_)
  rintro ⟨turns, w, o, -, hproper, -⟩
  exact ⟨_, _, hproper.outcome, hproper.served⟩

end House

end Negotiation

end DeliTalk
