import DeliTalk.Proofs.Course
import DeliTalk.Proofs.Service

/-!
# Portions: one ingredient, once or several times

A portion is an ingredient to be added on top, once or as often as a number says. In a sound
language a portion of a leaf is said in some words, and whoever hears them understands the whole
portion or misses the number; nothing else can happen. A server without spite serves what it
understood as long as there is stock, and does not answer.

* `Operation.Portion`: an ingredient a number of times.
* `Agent.hears_portion`, `Agent.hears_alone`: what is understood of a portion, and of a single word.
* `Operation.apply_portion`: what a portion does.
* `Order.ends_serve_portion`, `Order.ends_serve_affirm`: how it is served.
-/

namespace DeliTalk

open Act

/-! ## 1. Portions -/

/-- An ingredient added on top, once or a number of times. -/
inductive Operation.Portion (i : Ingredient) : Nat → Operation → Prop
  | once : Portion i 1 (.add i .top)
  | several (n : Nat) : Portion i n (.repeated n (.add i .top))

namespace Taxonomy

variable {t : Taxonomy} {name : String}

/-- The leaf of a name. -/
def leafOf (t : Taxonomy) (name : String) : Ingredient := ((t.find? name).getD default).leaf

/-- A sandwich of the leaves of some names. -/
def stack (t : Taxonomy) (names : List String) : Sandwich :=
  { ingredients := names.map t.leafOf }

theorem mem_leafNames : name ∈ t.leafNames ↔ ∃ p ∈ t.walk, p.1.isLeaf = true ∧ p.1.name = name := by
  simp only [leafNames, leaves, List.map_map, List.mem_map, List.mem_filter]
  constructor
  · rintro ⟨p, ⟨hp, hleaf⟩, rfl⟩
    exact ⟨p, hp, hleaf, rfl⟩
  · rintro ⟨p, hp, hleaf, rfl⟩
    exact ⟨p, ⟨hp, hleaf⟩, rfl⟩

/-- The root is no leaf, since there are breads below it. -/
theorem isLeaf_root (t : Taxonomy) : t.root.isLeaf = false := by
  obtain ⟨base, hbase, -⟩ := t.exists_base_breads
  unfold Ingredient.isLeaf
  cases hkids : t.root.kids with
  | nil =>
    rw [hkids] at hbase
    cases hbase
  | cons c rest => rfl

/-- A leaf is found by its name, which is not the root's. -/
theorem Spelled.find?_leafName (h : t.Spelled) (hname : name ∈ t.leafNames) :
    ∃ p ∈ t.walk, p.1.isLeaf = true ∧ p.1.name = name ∧ p.1.name ≠ t.root.name ∧
      t.find? name = some p.1.leaf := by
  obtain ⟨p, hp, hleaf, rfl⟩ := mem_leafNames.mp hname
  refine ⟨p, hp, hleaf, rfl, ?_, ?_⟩
  · intro heq
    have hroot := h.find?_name t.root_mem_walk
    have hfound := h.find?_name hp
    rw [heq, hroot] at hfound
    rw [← Option.some.inj hfound, t.isLeaf_root] at hleaf
    cases hleaf
  · unfold find? node?
    rw [h.find?_name hp]
    simp [hleaf]

theorem Spelled.name_leafOf (h : t.Spelled) (hname : name ∈ t.leafNames) :
    (t.leafOf name).name = name := by
  obtain ⟨p, -, -, rfl, -, hfind⟩ := h.find?_leafName hname
  unfold leafOf
  rw [hfind]
  rfl

theorem Spelled.names_stack (h : t.Spelled) {names : List String}
    (hnames : ∀ name ∈ names, name ∈ t.leafNames) : (t.stack names).names = names := by
  unfold stack Sandwich.names
  rw [List.map_map]
  conv_rhs => rw [← List.map_id names]
  exact List.map_congr_left fun name hname => h.name_leafOf (hnames name hname)

theorem plain_stack (t : Taxonomy) (names : List String) : (t.stack names).Plain := by
  refine ⟨?_, by simp [stack]⟩
  intro i hi
  obtain ⟨name, -, rfl⟩ := List.mem_map.mp hi
  rfl

end Taxonomy

/-! ## 2. Hearing -/

namespace Agent

open Operation DeliTalk.Derivation

variable {t : Taxonomy} {words : List (String × Entry)} (h : Lexicon.Sound t words)
  {a b : Agent ℝ} (ha : a.Speaks t words) (hb : b.Speaks t words)

include h ha hb

/-- **A word that stands for itself** is understood, without a draw. -/
theorem hears_alone {x : Operation} {u : Usage} (hu : u ≠ .ingredient)
    (hencode : x.encode a.lexicon = do return [← a.lexicon.wordForUsage u])
    (hsingle : ∀ w : Tagged, w.usage? = some u → Sentence.single? w = some x) :
    ∃ w, Agent.speak a.lexicon (some x) = .ok [w] ∧ ∀ m : Mind ℝ, ∃ r : Reading ℝ,
      (b.understand (Phrase.text? [w])).perform m = (.ok (some r), m) ∧ r.operation = x := by
  obtain ⟨w, -, hspeak, hne, -, -⟩ := Agent.speak_usage h (g := a.grammar) ha.lexicon hu hencode
  obtain ⟨v, hv, hspeak', -, htag, his⟩ := Agent.speak_usage h (g := b.grammar) hb.lexicon
    (x := x) hu (by
      rw [show b.grammar.lexicon = a.lexicon from hb.lexicon.trans ha.lexicon.symm]
      exact hencode)
  rw [show b.grammar.lexicon = a.lexicon from hb.lexicon.trans ha.lexicon.symm] at hspeak'
  have heq : [w] = [v] := Except.ok.inj (hspeak.symm.trans hspeak')
  cases heq
  refine ⟨w, hspeak, fun m => ?_⟩
  have hannotate : b.grammar.annotate ([w].map (·.word)) = [w] := by
    simp [Grammar.annotate, htag]
  have hsentence : (b.grammar.sentence [w]).perform m = (.ok (some (x, .unused)), m) := by
    refine Grammar.perform_sentence (c := m.chance) ?_
    simp [Sentence.understand, hsingle w (Tagged.is_iff.mp his)]
  rw [← hannotate] at hsentence
  refine ⟨_, perform_understand hb.settled (by simp) ?_ hsentence, rfl⟩
  intro v hv
  rw [List.mem_singleton.mp hv]
  exact hne

omit h ha in
/-- What is understood of the words of a single clause with a gist. -/
theorem understand_clause {c : Numbered} {g : Gist} (hplain : c.head.Plain)
    (hmeans : c.clause.Means t g) {ts : List Tagged} (hne : ts ≠ [])
    (hspelled : ∀ w ∈ ts, w.word.syllables ≠ [])
    (hwords : b.grammar.annotate (ts.map (·.word)) = c.words) (m : Mind ℝ) :
    ∃ (r : Reading ℝ) (m' : Mind ℝ), (b.understand (Phrase.text? ts)).perform m =
      (.ok (some r), m') ∧ m.Later m' ∧
        r.operation = (g.heard (m.personality.language.catches m.chance) : Understood ℝ).1 := by
  have hheads : ∀ w ∈ (Conjoined.last c).heads, w.Plain := by
    intro w hw
    rw [List.mem_singleton.mp hw]
    exact hplain
  have hstatement := Sentence.perform_statement (c := .last c) hheads hmeans .nil
    m.personality.language m.chance
  have htaxonomy : b.grammar.lexicon.taxonomy = t := by
    rw [show b.grammar.lexicon = Lexicon.build t words from hb.lexicon]
    rfl
  have hwords' : b.grammar.annotate (ts.map (·.word)) = (Conjoined.last c).words := hwords
  rw [← htaxonomy, ← hwords'] at hstatement
  have hsentence := Grammar.perform_sentence hstatement
  have htext : Phrase.text? ts = some (Phrase.render ts) := by
    unfold Phrase.text?
    rw [if_neg (by simpa using hne)]
  rw [htext]
  exact ⟨_, _, perform_understand hb.settled hne hspelled hsentence,
    ⟨_, ⟨_, rfl⟩, rfl⟩, rfl⟩

omit ha in
/-- A leaf is wanted in the words of a clause. -/
theorem exists_leaf_said {i : Ingredient} (hi : i.name ∈ t.leafNames) : ∃ ts c,
    SaidAs b.grammar (.add i .top) ts (Adverbial.words c) ∧ (Numbered.bare c).head.Plain ∧
      (Numbered.bare c).clause.Means t ⟨none, [], none, .add (t.leafOf i.name) .top⟩ := by
  have hg : b.grammar.lexicon = Lexicon.build t words := hb.lexicon
  obtain ⟨p, hp, hleaf, hname, hroot, hfind⟩ := h.tree.find?_leafName hi
  obtain ⟨noun, hnoun, hne, hpart, hreferent⟩ := h.clear.exists_noun hg hp hroot hname.symm
  have hleafOf : t.leafOf i.name = p.1.leaf := by
    unfold Taxonomy.leafOf
    rw [hfind]
    rfl
  rw [hleaf, if_pos rfl, ← hleafOf] at hreferent
  obtain ⟨verb, hverb, htag, hvne, his, hvpart⟩ :=
    exists_verb h.clear hg (u := .desire) (Or.inl rfl)
  refine ⟨[noun, verb], .bare (.bare ⟨b.grammar.tag noun.word, verb, hpart, hvpart, Or.inl his⟩),
    ⟨?_, by simpa using ⟨hne, hvne⟩, ?_⟩, Taxonomy.plain_of_referent hreferent, rfl, rfl, ?_, rfl⟩
  · rw [← hg] at hnoun
    simp only [encode, wantWords, hnoun, hverb]
    rfl
  · simp [Grammar.annotate, Adverbial.words, Positional.words, Core.words, htag]
  · rw [Tagged.is_iff] at his
    simp [Clause.core, Numbered.clause, Numbered.adverbial, Adverbial.positional,
      Positional.core, hreferent, his]

/-- **A portion of a leaf is heard** as the portion, or as one of it where the number is missed. -/
theorem hears_portion {i : Ingredient} (hi : i.name ∈ t.leafNames) {n : Nat} (hn : n ≠ 0)
    {x : Operation} (hx : Portion i n x)
    (hnumber : ∃ w, a.lexicon.wordForNumber (n : Int) = .ok w) :
    ∃ ts, Agent.speak a.lexicon (some x) = .ok ts ∧ ts ≠ [] ∧ ∀ m : Mind ℝ, ∃ (r : Reading ℝ)
      (m' : Mind ℝ) (k : Nat), (b.understand (Phrase.text? ts)).perform m = (.ok (some r), m') ∧
        m.Later m' ∧ Portion (t.leafOf i.name) k r.operation ∧ (k = n ∨ k = 1) := by
  obtain ⟨ts, c, hsaid, hplain, hmeans⟩ := exists_leaf_said h hb hi
  rw [show a.lexicon = b.grammar.lexicon from ha.lexicon.trans hb.lexicon.symm] at hnumber ⊢
  cases hx with
  | once =>
    have hne := ne_nil_of_encode hsaid.encode
    refine ⟨ts, by rw [Agent.speak, hsaid.encode], hne, fun m => ?_⟩
    obtain ⟨r, m', hperform, hlater, hr⟩ :=
      understand_clause hb (c := .bare c) hplain hmeans hne hsaid.syllables hsaid.heard m
    refine ⟨r, m', 1, hperform, hlater, ?_, Or.inl rfl⟩
    rw [hr]
    exact .once
  | several n =>
    obtain ⟨w, hw⟩ := hnumber
    have hg : b.grammar.lexicon = Lexicon.build t words := hb.lexicon
    obtain ⟨htag, his, hvalue, hwne⟩ :=
      h.clear.exists_number_word hg (by rw [← hg]; exact hw)
    have hencode : (Operation.repeated n (.add i .top)).encode b.grammar.lexicon =
        .ok (w :: ts) := by
      rw [encode, hw, hsaid.encode]
      rfl
    have hsaid' := hsaid.cons hencode htag hwne
    have hmeans' := means_number his hvalue hn hmeans
    refine ⟨w :: ts, by rw [Agent.speak, hencode], List.cons_ne_nil w ts, fun m => ?_⟩
    obtain ⟨r, m', hperform, hlater, hr⟩ := understand_clause hb
      (c := .number w n his hvalue hn c) hplain hmeans' (List.cons_ne_nil w ts) hsaid'.syllables
      hsaid'.heard m
    -- whether the number is heard is up to one roll
    by_cases hroll : m.personality.language.catches m.chance 0 .numbers = true
    · refine ⟨r, m', n, hperform, hlater, ?_, Or.inl rfl⟩
      rw [hr]
      simp only [Gist.heard, Gist.heardAdverbs, Gist.heardPlaced, Gist.placeDraws,
        Option.isSome_none, Bool.false_eq_true, if_false, List.length_nil, Nat.add_zero, hroll,
        if_true]
      exact .several n
    · refine ⟨r, m', 1, hperform, hlater, ?_, Or.inr rfl⟩
      rw [hr]
      simp only [Gist.heard, Gist.heardAdverbs, Gist.heardPlaced, Gist.placeDraws,
        Option.isSome_none, Bool.false_eq_true, if_false, List.length_nil, Nat.add_zero, hroll]
      exact .once

end Agent

/-! ## 3. What a portion does -/

namespace Personality

variable {R : Type}

/-- A personality with another pantry. -/
def withInventory (p : Personality R) (r : Register Int) : Personality R :=
  { p with inventory := r }

/-- A personality that has refused nothing yet. -/
def willing (p : Personality R) : Personality R := { p with refused := [] }

/-- Whether there are so many units of an ingredient. -/
def Stocks (p : Personality R) (name : String) (n : Nat) : Prop :=
  p.unlimitedStock = true ∨ (n : Int) ≤ p.units name

/-- Whether so many units of an ingredient were taken out of a pantry, and no others. -/
def Takes (p q : Personality R) (name : String) (n : Nat) : Prop :=
  (∃ r, q = p.withInventory r) ∧ (p.unlimitedStock = true ∨
    ∀ other, q.units other = p.units other - if other = name then (n : Int) else 0)

theorem take_spec {p : Personality R} {name : String} (h : p.Stocks name 1) :
    ∃ q, p.take name = (true, q) ∧ p.Takes q name 1 := by
  unfold take
  by_cases hunlimited : p.unlimitedStock = true
  · rw [if_pos hunlimited]
    exact ⟨p, rfl, ⟨p.inventory, rfl⟩, Or.inl hunlimited⟩
  · have hle := h.resolve_left hunlimited
    rw [if_neg hunlimited, if_neg (by omega)]
    refine ⟨_, rfl, ⟨_, rfl⟩, Or.inr fun other => ?_⟩
    show (Register.find? other (Register.put name (p.units name - 1) p.inventory)).getD 0 = _
    by_cases heq : other = name
    · rw [if_pos heq, heq, Register.find?_put_self]
      rfl
    · rw [if_neg heq, Register.find?_put_of_ne _ heq, sub_zero]
      rfl

/-- Nothing is taken of what there is no unit of. -/
theorem take_of_lacking {p : Personality R} {name : String} (h : ¬ p.Stocks name 1) :
    p.take name = (false, p) := by
  unfold take
  rw [if_neg fun hunlimited => h (Or.inl hunlimited), if_pos]
  exact Int.not_lt.mp fun hunits => h (Or.inr hunits)

theorem Takes.trans {p q s : Personality R} {name : String} {m n : Nat} (h : p.Takes q name m)
    (h' : q.Takes s name n) : p.Takes s name (m + n) := by
  obtain ⟨⟨r, rfl⟩, hunits⟩ := h
  obtain ⟨⟨r', rfl⟩, hunits'⟩ := h'
  refine ⟨⟨r', rfl⟩, ?_⟩
  rcases hunits with hunlimited | hunits
  · exact Or.inl hunlimited
  · refine hunits'.imp id fun hunits' other => ?_
    rw [hunits' other, hunits other]
    split
    · push_cast
      omega
    · omega

theorem Takes.stocks {p q : Personality R} {name : String} {m n : Nat} (h : p.Takes q name m)
    (hp : p.Stocks name (m + n)) : q.Stocks name n := by
  obtain ⟨⟨r, rfl⟩, hunits⟩ := h
  rcases hp with hunlimited | hle
  · exact Or.inl hunlimited
  · refine hunits.imp id fun hunits => ?_
    rw [hunits name, if_pos rfl]
    push_cast at hle
    omega

end Personality

namespace Operation

variable {R : Type} [Scalar R] {i : Ingredient} {n : Nat} {x : Operation} {p : Personality R}

/-- A sandwich with some more of an ingredient on top. -/
def topped (s : Sandwich) (i : Ingredient) (n : Nat) : Sandwich :=
  { s with ingredients := s.ingredients ++ List.replicate n i.leaf }

omit [Scalar R] in
theorem applyAdd_top (s : Sandwich) (h : p.Stocks i.name 1) :
    ∃ q, applyAdd i .top s p = (topped s i 1, q) ∧ p.Takes q i.name 1 := by
  obtain ⟨q, htake, htakes⟩ := p.take_spec h
  refine ⟨q, ?_, htakes⟩
  have htop : insertionPoint .top s.ingredients = some s.ingredients.length := rfl
  unfold applyAdd topped
  simp only [htop, htake]
  rw [List.insertIdx_length_self]
  rfl

/-- **A portion in stock** goes on top, and is taken from the stock if that is limited. -/
theorem apply_portion (hx : Portion i n x) (s : Sandwich) (h : p.Stocks i.name n) :
    ∃ q, x.apply (s, p) = (topped s i n, q) ∧ p.Takes q i.name n := by
  have key : ∀ n : Nat, p.Stocks i.name n → ∃ q,
      n.repeat (apply (.add i .top)) (s, p) = (topped s i n, q) ∧ p.Takes q i.name n := by
    intro n
    induction n with
    | zero =>
      intro _
      exact ⟨p, by simp [Nat.repeat, topped], ⟨p.inventory, rfl⟩, Or.inr (by simp)⟩
    | succ n ih =>
      intro hstock
      have hn : p.Stocks i.name n := hstock.imp id fun hle => by
        push_cast at hle
        omega
      obtain ⟨q, hrepeat, htakes⟩ := ih hn
      obtain ⟨q', hadd, htakes'⟩ := applyAdd_top (topped s i n) (htakes.stocks hstock)
      refine ⟨q', ?_, htakes.trans htakes'⟩
      rw [Nat.repeat, hrepeat]
      show applyAdd i .top (topped s i n) q = _
      rw [hadd]
      simp [topped, List.replicate_succ']
  cases hx with
  | once => exact key 1 h
  | several n => exact key n h

/-- What a portion would do if everything were in stock. -/
theorem imagine_portion (hx : Portion i n x) (s : Sandwich) : x.imagine R s = topped s i n := by
  obtain ⟨q, happly, -⟩ := apply_portion (p := (Personality.dreamer : Personality R)) hx s
    (Or.inl rfl)
  unfold imagine
  rw [happly]

end Operation

/-! ## 4. Serving a portion -/

/-- Whether a portion of an ingredient comes next among some names. -/
structure Follows (names : List String) (j n : Nat) (name : String) : Prop where
  pos : 1 ≤ n
  fits : j + n ≤ names.length
  take : names.take (j + n) = names.take j ++ List.replicate n name

namespace Follows

variable {names : List String} {j n : Nat} {name : String}

/-- A smaller portion comes next as well. -/
theorem le (h : Follows names j n name) {k : Nat} (hpos : 1 ≤ k) (hk : k ≤ n) :
    Follows names j k name := by
  have hfits := h.fits
  refine ⟨hpos, by omega, ?_⟩
  have htake : names.take (j + k) = (names.take (j + n)).take (j + k) := by
    rw [List.take_take, Nat.min_eq_left (by omega)]
  have hlength : (names.take j).length = j := by
    rw [List.length_take]
    omega
  rw [htake, h.take, List.take_append, hlength, List.take_of_length_le (by omega),
    Nat.add_sub_cancel_left, List.take_replicate, Nat.min_eq_left hk]

theorem mem (h : Follows names j n name) : name ∈ names := by
  refine List.mem_of_mem_take (i := j + n) ?_
  rw [h.take]
  exact List.mem_append_right _ (List.mem_replicate.mpr ⟨Nat.ne_of_gt h.pos, rfl⟩)

theorem count_le (h : Follows names j n name) :
    (names.take j).count name + n ≤ names.count name := by
  have hle := (List.take_sublist (j + n) names).count_le name
  rw [h.take, List.count_append, List.count_replicate_self] at hle
  exact hle

end Follows

/-- A server without spite that keeps nothing in force, and has what is still missing in stock. -/
structure Table.Hosts (names : List String) (j : Nat) (t : Table ℝ) : Prop where
  standing : t.order.standing = []
  spite : t.mind.personality.spite = 0
  ready : t.mind.Ready
  stock : t.mind.personality.unlimitedStock = true ∨ ∀ name ∈ names,
    (names.count name : Int) ≤ t.mind.personality.units name + (names.take j).count name

namespace Table.Hosts

variable {names : List String} {j n : Nat} {name : String} {t : Table ℝ}

theorem withChance (h : t.Hosts names j) {c : Chance ℝ} (hc : c.Proper) :
    (t.withChance c).Hosts names j := ⟨h.standing, h.spite, ⟨h.ready.counted, hc⟩, h.stock⟩

/-- What comes next is in stock. -/
theorem stocks (h : t.Hosts names j) (hn : Follows names j n name) :
    t.mind.personality.Stocks name n := by
  refine h.stock.imp id fun hstock => ?_
  have hcount := hn.count_le
  have := hstock name hn.mem
  omega

end Table.Hosts

namespace Order

variable {names : List String} {j n : Nat} {t : Table ℝ}

/-- Without spite nothing is turned around. -/
theorem ends_spited_kind (hspite : t.mind.personality.spite = 0) (hc : t.mind.chance.Proper)
    (x : Operation) :
    Ends (spited x) t (fun y t' => y = x ∧ ∃ c, c.Proper ∧ t' = t.withChance c) never := by
  unfold spited
  rw [ends_bind, ends_get, ends_bind, hspite, zero_mul]
  refine (Table.ends_lucky yields_roll_zero hc).imp ?_
  rintro _ _ ⟨rfl, c, hc, rfl⟩
  exact ⟨rfl, c, hc, rfl⟩

/-- **A server without spite** does what it was told, and grows. -/
theorem ends_serve_kind (h : t.Hosts names j) {x : Operation} (hx : x.isPersistent = false)
    {s s' : Sandwich} {q : Personality ℝ}
    (happly : x.apply (s, t.mind.personality.willing) = (s', q)) (hq : q.Counted)
    (skills : Language ℝ) (lex : List LexedWord) :
    Ends (serve x skills lex s) t (fun p t' => p = (s', x.respond t'.mind.personality) ∧
      t'.order.standing = [] ∧ t'.mind.Ready ∧
      ∃ l r, t'.mind.personality = { q.practised l r with lastLex := lex }) never := by
  unfold serve
  rw [ends_bind, Table.ends_change]
  have h₁ : (t.withPersonality t.mind.personality.willing).Hosts names j :=
    ⟨h.standing, h.spite, ⟨h.ready.counted, h.ready.chance⟩, h.stock⟩
  have happly₁ : x.apply (s, (t.withPersonality t.mind.personality.willing).mind.personality) =
      (s', q) := happly
  change Ends _ (t.withPersonality t.mind.personality.willing) _ _
  generalize t.withPersonality t.mind.personality.willing = t₁ at h₁ happly₁ ⊢
  -- nothing is in force, so the first edit does nothing
  rw [ends_bind, ends_get, ends_bind, ends_edit, h₁.standing]
  change Ends _ t₁ _ _
  rw [ends_bind]
  refine (ends_spited_kind h₁.spite h₁.ready.chance x).imp ?_
  rintro y _ ⟨hy, c, hc, rfl⟩
  subst y
  have happly₂ : x.apply (s, (t₁.withChance c).mind.personality) = (s', q) := happly₁
  rw [ends_bind]
  change Ends (edit x.apply s) (t₁.withChance c) _ _
  rw [ends_edit, happly₂, ends_bind, Table.ends_change, ends_bind]
  obtain ⟨l, r, hgrown, hcounted⟩ := q.upgrade_spec skills
  refine (Table.ends_fade (t := ((t₁.withChance c).withPersonality q).withPersonality
    (q.upgrade skills)) (by rw [hgrown]; exact hcounted hq) skills.used).imp ?_
  rintro _ _ ⟨l', r', rfl, hcounted'⟩
  rw [ends_bind, Table.ends_change, ends_bind, Table.ends_reorder, ends_bind, ends_get]
  have hkept : (((t₁.order.countermand x).keep x).archive x s').standing = [] := by
    unfold archive keep countermand
    rw [hx, if_neg Bool.false_ne_true, h₁.standing]
    rfl
  rw [hgrown] at hcounted' ⊢
  exact ⟨rfl, hkept, ⟨hcounted', hc⟩, _, _, rfl⟩

section

variable {tree : Taxonomy} (htree : tree.Spelled) (hleaves : ∀ name ∈ names, name ∈ tree.leafNames)

include htree hleaves

/-- **A portion that comes next is served**, in silence. -/
theorem ends_serve_portion (h : t.Hosts names j) {name : String} (hn : Follows names j n name)
    {x : Operation} (hx : Operation.Portion (tree.leafOf name) n x) (skills : Language ℝ)
    (lex : List LexedWord) :
    Ends (serve x skills lex (tree.stack (names.take j))) t
      (fun p t' => p = (tree.stack (names.take (j + n)), none) ∧ t'.Hosts names (j + n)) never := by
  have hname := htree.name_leafOf (hleaves name hn.mem)
  have hstock : t.mind.personality.willing.Stocks (tree.leafOf name).name n := by
    rw [hname]
    exact h.stocks hn
  obtain ⟨q, happly, ⟨inventory, rfl⟩, hunits⟩ :=
    Operation.apply_portion hx (tree.stack (names.take j)) hstock
  have htopped : Operation.topped (tree.stack (names.take j)) (tree.leafOf name) n =
      tree.stack (names.take (j + n)) := by
    rw [hn.take]
    simp [Operation.topped, Taxonomy.stack, Taxonomy.leafOf]
  rw [htopped] at happly
  have hpersistent : x.isPersistent = false := by cases hx <;> rfl
  refine (ends_serve_kind h hpersistent happly h.ready.counted skills lex).imp ?_
  rintro _ t' ⟨rfl, hstanding, hready, l, r, hp⟩
  have hrefused : t'.mind.personality.refused = [] := by
    rw [hp]
    rfl
  refine ⟨?_, hstanding, ?_, hready, ?_⟩
  · cases hx <;> simp [Operation.respond, hrefused]
  · rw [hp]
    exact h.spite
  · rw [hp]
    rcases h.stock with hunlimited | hstock
    · exact Or.inl hunlimited
    · refine hunits.imp id fun hunits other hother => ?_
      have hle := hstock other hother
      have hcount : (names.take (j + n)).count other =
          (names.take j).count other + if other = name then n else 0 := by
        rw [hn.take, List.count_append, List.count_replicate]
        by_cases heq : other = name
        · simp [heq]
        · simp [heq, Ne.symm heq]
      have hother' := hunits other
      rw [hname] at hother'
      show (names.count other : Int) ≤
        (t.mind.personality.willing.withInventory inventory).units other + _
      rw [hother', hcount]
      show (names.count other : Int) ≤ t.mind.personality.units other - _ + _
      split <;> push_cast <;> omega

omit htree hleaves in
/-- **Thanks are taken**, in silence. -/
theorem ends_serve_affirm (h : t.Hosts names j) (s : Sandwich) (skills : Language ℝ)
    (lex : List LexedWord) :
    Ends (serve .affirm skills lex s) t (fun p t' => p = (s, none) ∧ t'.Hosts names j) never := by
  obtain ⟨cloud, hcloud⟩ := Operation.exists_reinforce (Personality.confirmationRate : ℝ)
    t.mind.personality.lastLex t.mind.personality.willing
  have happly : Operation.affirm.apply (s, t.mind.personality.willing) =
      (s, { t.mind.personality.willing with cloud := cloud }) := by
    rw [← hcloud]
    rfl
  refine (ends_serve_kind h rfl happly h.ready.counted skills lex).imp ?_
  rintro _ t' ⟨rfl, hstanding, hready, l, r, hp⟩
  refine ⟨rfl, hstanding, ?_, hready, ?_⟩
  · rw [hp]
    exact h.spite
  · rw [hp]
    exact h.stock

end

end Order

end DeliTalk
