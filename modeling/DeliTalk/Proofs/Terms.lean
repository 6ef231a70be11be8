import DeliTalk.Operation.Speech
import Mathlib.Data.List.Forall2

/-!
# What an operation is said with

An operation is said term by term, from its outermost construct inwards. Each term is an ingredient, a
number or the sign of a usage, and has a word of its own. So the words of an operation are those of
its terms, and what cannot be said fails at its first term without a word.

* `Term`, `Lexicon.wordForTerm`: what has a word of its own.
* `Operation.terms`: what an operation is said with.
* `Operation.encode_eq_mapM`: its words are those of its terms.
* `Operation.encode_cases`: what becomes of saying it.
-/

namespace DeliTalk

/-! ## 1. Terms -/

/-- What has a word of its own. -/
inductive Term where
  | ingredient (i : Ingredient)
  | usage (u : Usage)
  | number (n : Nat)

/-- The word of a term. -/
def Lexicon.wordForTerm (lex : Lexicon) : Term → Except Fault Tagged
  | .ingredient i => lex.wordForIngredient i
  | .usage u => lex.wordForUsage u
  | .number n => lex.wordForNumber n

section MapM

variable {α β ε : Type} {f : α → Except ε β}

/-- **A list is mapped up to the first member that fails**, if there is one. -/
theorem mapM_cases (f : α → Except ε β) : ∀ ks : List α,
    (∃ ts, ks.mapM f = .ok ts ∧ List.Forall₂ (fun k t => f k = .ok t) ks ts) ∨
      ∃ front k back e, ks = front ++ k :: back ∧ (∃ ts, front.mapM f = .ok ts) ∧ f k = .error e ∧
        ks.mapM f = .error e
  | [] => Or.inl ⟨[], rfl, .nil⟩
  | k :: ks => by
    rw [List.mapM_cons]
    cases hk : f k with
    | error e => exact Or.inr ⟨[], k, ks, e, rfl, ⟨[], rfl⟩, hk, rfl⟩
    | ok t =>
      rcases mapM_cases f ks with ⟨ts, hts, hall⟩ | ⟨front, j, back, e, rfl, ⟨ts, hts⟩, hj, he⟩
      · exact Or.inl ⟨t :: ts, by rw [hts]; rfl, .cons hk hall⟩
      · refine Or.inr ⟨k :: front, j, back, e, rfl, ⟨t :: ts, ?_⟩, hj, by rw [he]; rfl⟩
        rw [List.mapM_cons, hk, hts]
        rfl

/-- What comes last in a list that is mapped is mapped. -/
theorem exists_mapM_of_append {front ks : List α} {ts : List β}
    (h : (front ++ ks).mapM f = .ok ts) : ∃ us, ks.mapM f = .ok us := by
  rw [List.mapM_append] at h
  cases hfront : front.mapM f with
  | error e =>
    rw [hfront] at h
    cases h
  | ok fs =>
    cases hks : ks.mapM f with
    | error e =>
      rw [hfront, hks] at h
      cases h
    | ok us => exact ⟨us, rfl⟩

end MapM

namespace Operation

/-- The terms that place what is wanted. -/
def placing (r : Relative) : List Term :=
  match r.position, r.anchor with
  | .before, some anchor => [.ingredient anchor, .usage .before]
  | .after, some anchor => [.ingredient anchor, .usage .after]
  | _, _ => []

/-- The terms of "I want it". -/
def wanted (i : Ingredient) (r : Relative) : List Term :=
  placing r ++ [.ingredient i, .usage .desire]

/-- What an operation is said with. -/
def terms : Operation → List Term
  | add i r => wanted i r
  | remove i => .usage .negation :: wanted i .top
  | removeAll i => .usage .ever :: .usage .negation :: wanted i .top
  | repeated n x => .number n :: terms x
  | compound x y => terms x ++ .usage .conjunction :: terms y
  | ensure i => [.ingredient i, .usage .possession]
  | persist x => .usage .ever :: terms x
  | affirm => [.usage .affirmation]
  | negate => [.usage .negation]
  | checkFor i => [.usage .question, .ingredient i, .usage .possession]
  | finish => [.usage .greeting]

/-! ## 2. The words of the terms -/

variable {lex : Lexicon}

theorem wantWords_eq_mapM (i : Ingredient) (r : Relative) :
    wantWords lex i r = (wanted i r).mapM lex.wordForTerm := by
  obtain ⟨position, anchor⟩ := r
  cases position <;> cases anchor <;>
    simp [wantWords, wanted, placing, Lexicon.wordForTerm]

/-- **The words of an operation** are those of its terms. -/
theorem encode_eq_mapM (x : Operation) : x.encode lex = x.terms.mapM lex.wordForTerm := by
  induction x with
  | add i r => exact wantWords_eq_mapM i r
  | repeated n x ih => simp [encode, terms, ih, Lexicon.wordForTerm]
  | compound x y ihx ihy => simp [encode, terms, ihx, ihy, Lexicon.wordForTerm]
  | persist x ih => simp [encode, terms, ih, Lexicon.wordForTerm]
  | _ => simp [encode, removeWords, wantWords_eq_mapM, terms, Lexicon.wordForTerm]

theorem conjunction_notMem_wanted (i : Ingredient) (r : Relative) :
    Term.usage .conjunction ∉ wanted i r := by
  obtain ⟨position, anchor⟩ := r
  cases position <;> cases anchor <;> simp [wanted, placing]

/-- Whether in front of every conjunction stands all that some operation is said with. -/
def Joins (ks : List Term) : Prop :=
  ∀ front back : List Term, ks = front ++ .usage .conjunction :: back →
    ∃ (y : Operation) (first : List Term), front = first ++ y.terms

theorem joins_of_notMem {ks : List Term} (h : Term.usage .conjunction ∉ ks) : Joins ks := by
  rintro front back rfl
  exact absurd (List.mem_append_right front List.mem_cons_self) h

theorem Joins.cons {k : Term} {ks : List Term} (hk : k ≠ .usage .conjunction) (h : Joins ks) :
    Joins (k :: ks) := by
  intro front back heq
  cases front with
  | nil => exact absurd (List.cons.inj heq).1 hk
  | cons j front =>
    obtain ⟨y, first, rfl⟩ := h front back (List.cons.inj heq).2
    exact ⟨y, j :: first, rfl⟩

/-- One more operation, and a conjunction. -/
theorem Joins.join {x : Operation} {ks : List Term} (hx : Joins x.terms) (h : Joins ks) :
    Joins (x.terms ++ .usage .conjunction :: ks) := by
  intro front back heq
  -- the conjunction in question is behind the one that joins, is that one, or is in front of it
  rcases List.append_eq_append_iff.mp heq with ⟨more, rfl, hmore⟩ | ⟨more, hfront, hmore⟩
  · cases more with
    | nil => exact ⟨x, [], by simp⟩
    | cons j more =>
      obtain ⟨y, first, rfl⟩ := h more back (List.cons.inj hmore).2
      exact ⟨y, x.terms ++ j :: first, by simp⟩
  · cases more with
    | nil => exact ⟨x, [], by simpa using hfront.symm⟩
    | cons j more =>
      rw [← (List.cons.inj hmore).1] at hfront
      exact hx front more hfront

/-- Conjunctions only join what is said for operations. -/
theorem joins_terms (x : Operation) : Joins x.terms := by
  induction x with
  | add i r => exact joins_of_notMem (conjunction_notMem_wanted i r)
  | remove i => exact joins_of_notMem (by simp [terms, conjunction_notMem_wanted])
  | removeAll i => exact joins_of_notMem (by simp [terms, conjunction_notMem_wanted])
  | repeated n x ih => exact ih.cons (by simp)
  | compound x y ihx ihy => exact ihx.join ihy
  | persist x ih => exact ih.cons (by simp)
  | _ => exact joins_of_notMem (by simp [terms])

/-- **What becomes of saying an operation**: it has the words of its terms, or fails as the first of
them without a word does. The word that joins is asked for only when there is something to join. -/
theorem encode_cases (lex : Lexicon) (x : Operation) :
    (∃ ts, x.encode lex = .ok ts ∧
      List.Forall₂ (fun k w => lex.wordForTerm k = .ok w) x.terms ts) ∨
    ∃ k ∈ x.terms, ∃ e, lex.wordForTerm k = .error e ∧ x.encode lex = .error e ∧
      (k = .usage .conjunction → ∃ (y : Operation) (ts : List Tagged), y.encode lex = .ok ts) := by
  rw [encode_eq_mapM]
  rcases mapM_cases lex.wordForTerm x.terms with hsaid | ⟨front, k, back, e, hx, ⟨ts, hts⟩, hk, he⟩
  · exact Or.inl hsaid
  · refine Or.inr ⟨k, by rw [hx]; simp, e, hk, he, ?_⟩
    rintro rfl
    obtain ⟨y, first, rfl⟩ := x.joins_terms front back hx
    obtain ⟨us, hus⟩ := exists_mapM_of_append hts
    exact ⟨y, us, by rw [encode_eq_mapM, hus]⟩

/-- Each word that is said is that of a term. -/
theorem exists_term_of_mem {x : Operation} {ts : List Tagged}
    (h : List.Forall₂ (fun k w => lex.wordForTerm k = .ok w) x.terms ts) {w : Tagged} (hw : w ∈ ts) :
    ∃ k ∈ x.terms, lex.wordForTerm k = .ok w := by
  obtain ⟨hlength, hget⟩ := List.forall₂_iff_get.mp h
  obtain ⟨n, rfl⟩ := List.mem_iff_get.mp hw
  have hn : n.val < x.terms.length := Nat.lt_of_lt_of_eq n.isLt hlength.symm
  exact ⟨_, List.get_mem x.terms ⟨n, hn⟩, hget n hn n.isLt⟩

/-- Each term of what is said has a word. -/
theorem exists_word_of_mem {x : Operation} {ts : List Tagged}
    (h : List.Forall₂ (fun k w => lex.wordForTerm k = .ok w) x.terms ts) {k : Term}
    (hk : k ∈ x.terms) : ∃ w, lex.wordForTerm k = .ok w := by
  obtain ⟨hlength, hget⟩ := List.forall₂_iff_get.mp h
  obtain ⟨n, rfl⟩ := List.mem_iff_get.mp hk
  exact ⟨_, hget n n.isLt (Nat.lt_of_lt_of_eq n.isLt hlength)⟩

/-! ## 3. Which terms there are -/

/-- What is wanted is said with itself, its anchor and three usages. -/
theorem mem_wanted {i : Ingredient} {r : Relative} {k : Term} (h : k ∈ wanted i r) :
    (k = .ingredient i ∨ ∃ a ∈ r.anchor, k = .ingredient a) ∨
      k = .usage .desire ∨ k = .usage .before ∨ k = .usage .after := by
  obtain ⟨position, anchor⟩ := r
  cases position <;> cases anchor <;> simp [wanted, placing] at h ⊢ <;> grind

/-- No number and no ingredient is said as a usage. -/
theorem usage_of_mem_terms {u : Usage} {x : Operation} (h : .usage u ∈ x.terms) :
    u ≠ .number ∧ u ≠ .ingredient := by
  have hwanted : ∀ {i : Ingredient} {r : Relative}, Term.usage u ∈ wanted i r →
      u ≠ .number ∧ u ≠ .ingredient := by
    intro i r hu
    rcases mem_wanted hu with (hu | ⟨a, -, hu⟩) | hu | hu | hu <;> cases hu <;> decide
  have hcons : ∀ {v : Usage} {ks : List Term}, v ≠ .number ∧ v ≠ .ingredient →
      (Term.usage u ∈ ks → u ≠ .number ∧ u ≠ .ingredient) → .usage u ∈ .usage v :: ks →
      u ≠ .number ∧ u ≠ .ingredient := by
    intro v ks hv hks hu
    rcases List.mem_cons.mp hu with hu | hu
    · cases hu
      exact hv
    · exact hks hu
  have hnil : Term.usage u ∈ ([] : List Term) → u ≠ .number ∧ u ≠ .ingredient :=
    fun hu => absurd hu List.not_mem_nil
  induction x with
  | add i r => exact hwanted h
  | remove i => exact hcons (by decide) hwanted h
  | removeAll i => exact hcons (by decide) (hcons (by decide) hwanted) h
  | repeated n x ih => exact ih ((List.mem_cons.mp h).resolve_left nofun)
  | compound x y ihx ihy => exact (List.mem_append.mp h).elim ihx (hcons (by decide) ihy)
  | ensure i => exact hcons (by decide) hnil ((List.mem_cons.mp h).resolve_left nofun)
  | persist x ih => exact hcons (by decide) ih h
  | affirm => exact hcons (by decide) hnil h
  | negate => exact hcons (by decide) hnil h
  | checkFor i =>
    refine hcons (by decide) (fun h => ?_) h
    exact hcons (by decide) hnil ((List.mem_cons.mp h).resolve_left nofun)
  | finish => exact hcons (by decide) hnil h

/-- An operation is said with something. -/
theorem terms_ne_nil : ∀ x : Operation, x.terms ≠ []
  | add i r => by simp [terms, wanted]
  | compound x y => by simp [terms]
  | remove _ | removeAll _ | repeated _ _ | ensure _ | persist _ | affirm | negate | checkFor _
  | finish => nofun

/-- What has words has at least one. -/
theorem ne_nil_of_encode {x : Operation} {ts : List Tagged} (h : x.encode lex = .ok ts) :
    ts ≠ [] := by
  rintro rfl
  rcases encode_cases lex x with ⟨us, hus, hall⟩ | ⟨-, -, e, -, he, -⟩
  · cases h.symm.trans hus
    exact x.terms_ne_nil (List.forall₂_nil_right_iff.mp hall)
  · cases h.symm.trans he

/-- What is said with one term is said with a usage, and only a goodbye is a greeting. -/
theorem terms_eq_singleton {k : Term} : ∀ {x : Operation}, x.terms = [k] →
    ∃ u, k = .usage u ∧ (u = .greeting → x = finish)
  | affirm, h => ⟨.affirmation, (List.cons.inj h).1.symm, nofun⟩
  | negate, h => ⟨.negation, (List.cons.inj h).1.symm, nofun⟩
  | finish, h => ⟨.greeting, (List.cons.inj h).1.symm, fun _ => rfl⟩
  | repeated _ x, h | persist x, h => absurd (List.cons.inj h).2 x.terms_ne_nil
  | compound x y, h => by simp [terms, List.append_eq_cons_iff, x.terms_ne_nil] at h
  | add i r, h => by simp [terms, wanted, List.append_eq_cons_iff] at h
  | remove i, h => by simp [terms, wanted] at h
  | removeAll i, h => by simp [terms] at h
  | ensure i, h => by simp [terms] at h
  | checkFor i, h => by simp [terms] at h

end Operation

end DeliTalk
