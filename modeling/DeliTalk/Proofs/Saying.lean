import DeliTalk.Proofs.RoundTrip
import DeliTalk.Proofs.Terms
import DeliTalk.Session

/-!
# What can be said in a sound language

In a sound language an operation has words, or else there is no word for an ingredient or a number
in it; nothing else goes wrong. The words are spelled, and only a goodbye is a greeting alone.

* `Worded`: words for something, or something that has none.
* `Operation.worded_encode`: the words of any operation.
* `Agent.speak_spec`: a machine says something or is silent.
-/

namespace DeliTalk

/-! ## 1. Words, or something that has none -/

section Worded

variable {α : Type}

/-- A value of a kind, or something that has no word. -/
def Worded (x : Except Fault α) (post : α → Prop) : Prop :=
  (∃ a, x = .ok a ∧ post a) ∨ ∃ c, x = .error (.missing c)

variable {post : α → Prop}

theorem worded_ok {a : α} (h : post a) : Worded (.ok a) post := Or.inl ⟨a, rfl, h⟩

theorem Worded.weaken {x : Except Fault α} {post' : α → Prop} (hx : Worded x post)
    (hp : ∀ a, post a → post' a) : Worded x post' := by
  rcases hx with ⟨a, ha, hpost⟩ | hmissing
  · exact Or.inl ⟨a, ha, hp a hpost⟩
  · exact Or.inr hmissing

end Worded

variable {t : Taxonomy} {words : List (String × Entry)} (h : Lexicon.Sound t words) {g : Grammar}
  (hg : g.lexicon = Lexicon.build t words)

/-- A word that can be written. -/
def Tagged.Spelled (w : Tagged) : Prop := w.word.syllables ≠ []

/-- Words for an operation: some, all of them spelled, and no greeting alone except for a
goodbye. -/
structure Spoken (g : Grammar) (x : Operation) (ts : List Tagged) : Prop where
  some : ts ≠ []
  spelled : ∀ w ∈ ts, w.Spelled
  alone : ∀ w, ts = [w] → x ≠ .finish → (g.tag w.word).is .greeting = false

namespace Lexicon

include h

theorem worded_ingredient (i : Ingredient) :
    Worded ((build t words).wordForIngredient i) Tagged.Spelled := by
  unfold wordForIngredient
  rw [taxonomy_build, Taxonomy.wordFor?_eq]
  cases hfind : t.walk.find? (·.1.name == i.name) with
  | none => exact Or.inr ⟨_, rfl⟩
  | some p =>
    obtain ⟨w, hread, -, hne⟩ := h.tree.exists_word (List.mem_of_find?_eq_some hfind)
    simp only [Option.map_some, hread]
    exact worded_ok hne

theorem readable_of_mem {p : String × Entry} (hp : p ∈ (build t words).entries) : p.2.Reads :=
  fun hu => h.readable p (mem_words_of_mem hp (by rw [hu]; simp)) hu

theorem worded_number (value : Int) :
    Worded ((build t words).wordForNumber value) Tagged.Spelled := by
  unfold wordForNumber
  rcases findNumber_cases value (build t words).entries with
    ⟨p, hp, hnumber, hfound⟩ | ⟨-, hmissing⟩ | ⟨p, hp, hunread, -⟩
  · obtain ⟨w, hw, -, -, -, hne⟩ := h.clear.annotated_of_mem hp (by rw [hnumber.1]; simp)
    rw [hfound]
    exact Or.inl ⟨w, hw, hne⟩
  · rw [hmissing]
    exact Or.inr ⟨_, rfl⟩
  · exact absurd (readable_of_mem h hp) hunread

omit h in
/-- Numbers that can be read have a largest one. -/
theorem exists_greatestNumber : ∀ {es : List (String × Entry)}, (∀ p ∈ es, p.2.Reads) →
    ∃ n, greatestNumber es = .ok n
  | [], _ => ⟨0, rfl⟩
  | p :: rest, hread => by
    obtain ⟨n, hn⟩ := exists_greatestNumber fun q hq => hread q (List.mem_cons_of_mem p hq)
    rw [greatestNumber]
    split
    · rename_i hu
      obtain ⟨k, hk⟩ := hread p List.mem_cons_self hu
      refine ⟨max (k.getD 0) n, ?_⟩
      rw [numberOf, hk, hn]
      rfl
    · exact ⟨n, hn⟩

/-- The numbers of a sound language have a largest one. -/
theorem Sound.exists_largestNumber : ∃ n, (build t words).largestNumber = .ok n :=
  exists_greatestNumber fun _ => readable_of_mem h

end Lexicon

/-! ## 2. The words of an operation -/

namespace Operation

include h hg

/-- A term has a word that can be written and, if it is a usage, serves it; or it has no word. -/
theorem worded_term {x : Operation} {k : Term} (hk : k ∈ x.terms) :
    Worded (g.lexicon.wordForTerm k) fun w =>
      w.Spelled ∧ ∀ u, k = .usage u → (g.tag w.word).is u = true := by
  cases k with
  | ingredient i =>
    rw [hg]
    exact (Lexicon.worded_ingredient h i).weaken fun _ hw => ⟨hw, nofun⟩
  | usage u =>
    obtain ⟨w, hw, htag, hspelled, his⟩ := exists_function_word h.clear hg (usage_of_mem_terms hk).2
    refine Or.inl ⟨w, hw, hspelled, ?_⟩
    rintro _ ⟨⟩
    rw [htag]
    exact his
  | number n =>
    rw [hg]
    exact (Lexicon.worded_number h n).weaken fun _ hw => ⟨hw, nofun⟩

/-- **Any operation** has words, or there is no word for something in it. -/
theorem worded_encode (x : Operation) : Worded (x.encode g.lexicon) (Spoken g x) := by
  rcases encode_cases g.lexicon x with ⟨ts, hts, hall⟩ | ⟨k, hk, e, he, hencode, -⟩
  · have hword : ∀ {k w}, k ∈ x.terms → g.lexicon.wordForTerm k = .ok w →
        w.Spelled ∧ ∀ u, k = .usage u → (g.tag w.word).is u = true := by
      intro k w hk hw
      rcases worded_term h hg hk with ⟨v, hv, hpost⟩ | ⟨c, hc⟩
      · rw [hw, Except.ok.injEq] at hv
        exact hv ▸ hpost
      · rw [hw] at hc
        cases hc
    refine Or.inl ⟨ts, hts, ne_nil_of_encode hts, fun w hw => ?_, ?_⟩
    · obtain ⟨k, hk, hkw⟩ := exists_term_of_mem hall hw
      exact (hword hk hkw).1
    · -- one word means one term, which is a usage other than a greeting
      rintro w rfl hfinish
      obtain ⟨k, ks, hkw, hks, hterms⟩ := List.forall₂_cons_right_iff.mp hall
      rw [List.forall₂_nil_right_iff.mp hks] at hterms
      obtain ⟨u, rfl, hgreeting⟩ := terms_eq_singleton hterms
      have his := (hword (by rw [hterms]; exact List.mem_cons_self) hkw).2 u rfl
      rw [Tagged.is_iff] at his
      rw [Bool.eq_false_iff]
      intro hw
      rw [Tagged.is_iff, his] at hw
      exact hfinish (hgreeting (Option.some.inj hw))
  · rcases worded_term h hg hk with ⟨w, hw, -⟩ | ⟨c, hc⟩
    · rw [he] at hw
      cases hw
    · obtain rfl : e = .missing c := Except.error.inj (he.symm.trans hc)
      exact Or.inr ⟨c, hencode⟩

end Operation

/-! ## 3. What a machine says -/

include h hg

/-- **A machine says something or is silent.** It is silent if there is nothing to say, or no word
for something. -/
theorem Agent.speak_spec (x : Operation) : ∃ ts, Agent.speak g.lexicon (some x) = .ok ts ∧
    (ts ≠ [] → x.encode g.lexicon = .ok ts ∧ Spoken g x ts) := by
  rcases Operation.worded_encode h hg x with ⟨ts, hts, hspoken⟩ | ⟨c, hc⟩
  · exact ⟨ts, by rw [Agent.speak, hts], fun _ => ⟨hts, hspoken⟩⟩
  · exact ⟨[], by rw [Agent.speak, hc], fun hne => absurd rfl hne⟩

/-- What has a word of its own is said in one word. -/
theorem Agent.speak_usage {x : Operation} {u : Usage} (hu : u ≠ .ingredient)
    (hx : x.encode g.lexicon = do return [← g.lexicon.wordForUsage u]) :
    ∃ w, g.lexicon.wordForUsage u = .ok w ∧ Agent.speak g.lexicon (some x) = .ok [w] ∧
      w.Spelled ∧ g.tag w.word = w ∧ w.is u = true := by
  obtain ⟨w, hw, htag, hne, his⟩ := Operation.exists_function_word h.clear hg hu
  refine ⟨w, hw, ?_, hne, htag, his⟩
  rw [Agent.speak, hx, hw]
  rfl

end DeliTalk
