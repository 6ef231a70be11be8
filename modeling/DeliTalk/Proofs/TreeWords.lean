import DeliTalk.Proofs.Spelling
import DeliTalk.Sentence.Comprehension

/-!
# The words of a tree

In a tree whose morphemes are syllables, different between siblings, every node has a word of its
own, and the word leads back to the node.

* `Taxonomy.visit_append`, `Taxonomy.mem_visit`: the walk, agenda by agenda.
* `Taxonomy.pathTo_eq`: the word of a name is the one the walk puts next to it.
* `Taxonomy.Spelled`: names and morphemes that can be told apart.
* `Taxonomy.Spelled.exists_path`, `word_injective`, `ingredientFor_append`: from words to nodes.
-/

namespace DeliTalk

/-- Among things told apart by a key, each one is found under its key. -/
theorem find?_of_nodup {α κ : Type} [BEq κ] [LawfulBEq κ] {f : α → κ} :
    ∀ {xs : List α} {x : α}, (xs.map f).Nodup → x ∈ xs → xs.find? (fun y => f y == f x) = some x
  | y :: xs, x, h, hx => by
    rw [List.map_cons, List.nodup_cons] at h
    rcases List.mem_cons.mp hx with rfl | hx
    · simp
    · have hne : f y ≠ f x := fun he => h.1 (he ▸ List.mem_map_of_mem hx)
      rw [List.find?_cons_of_neg (by simpa using hne)]
      exact find?_of_nodup h.2 hx

/-- A node as it is handed out: a leaf as a childless copy. -/
def Ingredient.given (i : Ingredient) : Ingredient := if i.isLeaf then i.leaf else i

@[simp] theorem Ingredient.name_given (i : Ingredient) : i.given.name = i.name := by
  unfold given
  split <;> rfl

namespace Taxonomy

/-! ## 1. The walk -/

@[simp] theorem visit_nil : visit [] = [] := by
  rw [visit]

theorem visit_cons (node : Ingredient) (word : String) (rest : List (Ingredient × String)) :
    visit ((node, word) :: rest) = (node, word) :: visit (branches node word ++ rest) := by
  rw [visit]

theorem visit_append (agenda more : List (Ingredient × String)) :
    visit (agenda ++ more) = visit agenda ++ visit more := by
  induction agenda using visit.induct with
  | case1 => simp
  | case2 node word rest ih =>
    rw [List.cons_append, visit_cons, visit_cons, ← List.append_assoc, ih, List.cons_append]

theorem visit_cons_eq_append (q : Ingredient × String) (rest : List (Ingredient × String)) :
    visit (q :: rest) = visit [q] ++ visit rest :=
  visit_append [q] rest

/-- What is visited comes from one of the nodes on the agenda. -/
theorem mem_visit {p : Ingredient × String} : ∀ {agenda : List (Ingredient × String)},
    p ∈ visit agenda ↔ ∃ q ∈ agenda, p ∈ visit [q]
  | [] => by simp
  | q :: rest => by
    have ih := @mem_visit p rest
    rw [visit_cons_eq_append q rest, List.mem_append, ih]
    simp only [List.mem_cons, exists_eq_or_imp]

/-- A node is visited first, then what is below its children. -/
theorem mem_visit_singleton {p : Ingredient × String} {node : Ingredient} {word : String} :
    p ∈ visit [(node, word)] ↔
      p = (node, word) ∨ ∃ c ∈ node.kids, p ∈ visit [(c, word ++ c.morpheme)] := by
  rw [visit_cons, List.append_nil, List.mem_cons, mem_visit]
  refine or_congr Iff.rfl ⟨?_, ?_⟩
  · rintro ⟨q, hq, hp⟩
    obtain ⟨c, hc, rfl⟩ := List.mem_map.mp hq
    exact ⟨c, hc, hp⟩
  · rintro ⟨c, hc, hp⟩
    exact ⟨_, List.mem_map_of_mem hc, hp⟩

theorem mem_visit_self (node : Ingredient) (word : String) : (node, word) ∈ visit [(node, word)] :=
  mem_visit_singleton.mpr (Or.inl rfl)

theorem root_mem_walk (t : Taxonomy) : (t.root, t.root.morpheme) ∈ t.walk :=
  mem_visit_self _ _

/-! ## 2. From names to words -/

mutual

/-- The word of a name below a node. -/
theorem pathTo_eq : ∀ (i : Ingredient) (wanted done : String),
    pathTo i wanted done =
      ((visit [(i, done ++ i.morpheme)]).find? (·.1.name == wanted)).map (·.2)
  | ⟨name, morpheme, none⟩, wanted, done => by
    rw [visit_cons]
    by_cases h : name = wanted <;> simp [pathTo, branches, Ingredient.kids, h]
  | ⟨name, morpheme, some cs⟩, wanted, done => by
    rw [visit_cons, List.append_nil]
    by_cases h : name = wanted
    · simp [pathTo, h]
    · rw [pathTo, if_neg h, pathAmong_eq cs wanted (done ++ morpheme), List.find?_cons_of_neg]
      · rfl
      · simpa using h

/-- The word of a name below one of several nodes. -/
theorem pathAmong_eq : ∀ (cs : List Ingredient) (wanted done : String),
    pathAmong cs wanted done =
      ((visit (cs.map fun c => (c, done ++ c.morpheme))).find? (·.1.name == wanted)).map (·.2)
  | [], wanted, done => by simp [pathAmong]
  | i :: rest, wanted, done => by
    rw [pathAmong, pathTo_eq i wanted done, pathAmong_eq rest wanted done, List.map_cons,
      visit_cons_eq_append _ (rest.map _), List.find?_append]
    cases (visit [(i, done ++ i.morpheme)]).find? (·.1.name == wanted) <;> rfl

end

/-- **The word of an ingredient is the one next to its name in the walk.** -/
theorem wordFor?_eq (t : Taxonomy) (i : Ingredient) :
    t.wordFor? i = (t.walk.find? (·.1.name == i.name)).map (·.2) := by
  rw [wordFor?, pathTo_eq, String.empty_append]
  rfl

/-! ## 3. From words to nodes -/

/-- Trees in which nodes are told apart: names differ, every morpheme is a syllable, and siblings
have different morphemes. -/
structure Spelled (t : Taxonomy) : Prop where
  names : (t.walk.map (·.1.name)).Nodup
  morphemes : ∀ p ∈ t.walk, ∃ s : Syllable, p.1.morpheme = s.text
  siblings : ∀ p ∈ t.walk, (p.1.kids.map (·.morpheme)).Nodup

/-- The word of the root and of the syllables that lead on from there. -/
def trail (s : Syllable) (path : List Syllable) : Word := ⟨s :: path⟩

theorem size_lt_of_mem_kids {i c : Ingredient} (h : c ∈ i.kids) : c.size < i.size := by
  have key : ∀ cs : List Ingredient, c ∈ cs → c.size ≤ Ingredient.sizes cs := by
    intro cs hc
    induction cs with
    | nil => cases hc
    | cons d cs ih =>
      rw [Ingredient.sizes]
      rcases List.mem_cons.mp hc with rfl | hc
      · omega
      · have := ih hc
        omega
  have := key _ h
  rw [Ingredient.size_eq i]
  omega

/-- What is visited below something visited is visited with it. -/
theorem mem_visit_trans {p r : Ingredient × String} (i : Ingredient) (word : String)
    (hp : p ∈ visit [(i, word)]) (hr : r ∈ visit [p]) : r ∈ visit [(i, word)] := by
  rcases mem_visit_singleton.mp hp with rfl | ⟨c, hc, hp⟩
  · exact hr
  · exact mem_visit_singleton.mpr (Or.inr ⟨c, hc, mem_visit_trans c _ hp hr⟩)
termination_by i.size
decreasing_by exact size_lt_of_mem_kids hc

/-- A syllable leads to the child that has it. -/
theorem descend_of_mem {i c : Ingredient} {s : Syllable} (hnodup : (i.kids.map (·.morpheme)).Nodup)
    (hc : c ∈ i.kids) (hs : c.morpheme = s.text) : descend i s = c := by
  rw [descend, ← hs, find?_of_nodup hnodup hc, Option.getD_some]

/-- Syllables that belong to no child lead nowhere. -/
theorem foldl_descend_of_forall_ne {i : Ingredient} : ∀ {more : List Syllable},
    (∀ s ∈ more, ∀ c ∈ i.kids, c.morpheme ≠ s.text) → more.foldl descend i = i
  | [], _ => rfl
  | s :: more, h => by
    have hnone : i.kids.find? (·.morpheme == s.text) = none :=
      List.find?_eq_none.mpr fun c hc => by simpa using h s List.mem_cons_self c hc
    rw [List.foldl_cons, descend, hnone, Option.getD_none]
    exact foldl_descend_of_forall_ne fun u hu => h u (List.mem_cons_of_mem s hu)

/-- Every node below another one is reached from there by the syllables of its word. -/
theorem exists_path_below (i : Ingredient) (word : String)
    (hmorphemes : ∀ p ∈ visit [(i, word)], ∃ s : Syllable, p.1.morpheme = s.text)
    (hsiblings : ∀ p ∈ visit [(i, word)], (p.1.kids.map (·.morpheme)).Nodup)
    (p : Ingredient × String) (hp : p ∈ visit [(i, word)]) : ∃ path : List Syllable,
      p.2 = word ++ String.ofList (path.flatMap Syllable.letters) ∧ path.foldl descend i = p.1 := by
  rcases mem_visit_singleton.mp hp with rfl | ⟨c, hc, hp⟩
  · exact ⟨[], by simp, rfl⟩
  · have hsub : ∀ q ∈ visit [(c, word ++ c.morpheme)], q ∈ visit [(i, word)] := fun q hq =>
      mem_visit_singleton.mpr (Or.inr ⟨c, hc, hq⟩)
    obtain ⟨s, hs⟩ := hmorphemes _ (hsub _ (mem_visit_self _ _))
    obtain ⟨path, hword, hnode⟩ := exists_path_below c (word ++ c.morpheme)
      (fun q hq => hmorphemes q (hsub q hq)) (fun q hq => hsiblings q (hsub q hq)) p hp
    refine ⟨s :: path, ?_, ?_⟩
    · rw [hword, List.flatMap_cons, String.ofList_append, hs, Syllable.text, String.append_assoc]
    · rw [List.foldl_cons, descend_of_mem (hsiblings _ (mem_visit_self _ _)) hc hs, hnode]
termination_by i.size
decreasing_by exact size_lt_of_mem_kids hc

variable {t : Taxonomy}

/-- The children of a node are nodes. -/
theorem mem_walk_of_mem_kids {p : Ingredient × String} {c : Ingredient} (hp : p ∈ t.walk)
    (hc : c ∈ p.1.kids) : (c, p.2 ++ c.morpheme) ∈ t.walk :=
  mem_visit_trans _ _ hp (mem_visit_singleton.mpr (Or.inr ⟨c, hc, mem_visit_self _ _⟩))

/-- Syllables lead from a node to a node. -/
theorem exists_mem_walk_descend : ∀ (path : List Syllable) {p : Ingredient × String},
    p ∈ t.walk → ∃ q ∈ t.walk, path.foldl descend p.1 = q.1
  | [], p, hp => ⟨p, hp, rfl⟩
  | s :: path, p, hp => by
    rw [List.foldl_cons, descend]
    cases hfind : p.1.kids.find? (·.morpheme == s.text) with
    | none => exact exists_mem_walk_descend path hp
    | some c =>
      exact exists_mem_walk_descend path
        (mem_walk_of_mem_kids hp (List.mem_of_find?_eq_some hfind))

/-- **Every node has a word of syllables that leads to it.** -/
theorem Spelled.exists_path (h : t.Spelled) : ∃ s : Syllable, t.root.morpheme = s.text ∧
    ∀ p ∈ t.walk, ∃ path, p.2 = (trail s path).text ∧ path.foldl descend t.root = p.1 := by
  obtain ⟨s, hs⟩ := h.morphemes _ t.root_mem_walk
  refine ⟨s, hs, fun p hp => ?_⟩
  obtain ⟨path, hword, hnode⟩ :=
    exists_path_below t.root t.root.morpheme h.morphemes h.siblings p hp
  refine ⟨path, ?_, hnode⟩
  rw [hword, hs, Syllable.text, ← String.ofList_append]
  rfl

/-- **No two nodes have the same word.** -/
theorem Spelled.word_injective (h : t.Spelled) {p q : Ingredient × String} (hp : p ∈ t.walk)
    (hq : q ∈ t.walk) (heq : p.2 = q.2) : p = q := by
  obtain ⟨s, -, hpath⟩ := h.exists_path
  obtain ⟨path, hword, hnode⟩ := hpath p hp
  obtain ⟨path', hword', hnode'⟩ := hpath q hq
  rw [hword, hword'] at heq
  have hpaths := Word.text_injective heq
  rw [trail, trail, Word.mk.injEq, List.cons.injEq] at hpaths
  refine Prod.ext ?_ ?_
  · rw [← hnode, ← hnode', hpaths.2]
  · rw [hword, hword', hpaths.2]

/-- Every node's word can be read. -/
theorem Spelled.exists_word (h : t.Spelled) {p : Ingredient × String} (hp : p ∈ t.walk) :
    ∃ w : Word, Word.read p.2 = .ok w ∧ w.text = p.2 ∧ w.syllables ≠ [] := by
  obtain ⟨s, -, hpath⟩ := h.exists_path
  obtain ⟨path, hword, -⟩ := hpath p hp
  have hne : (trail s path).syllables ≠ [] := List.cons_ne_nil s path
  exact ⟨trail s path, by rw [hword, Word.read_text hne], hword.symm, hne⟩

/-- **The word of a node leads to the node**, and so does a longer one as long as no syllable after
it belongs to a child of the node. -/
theorem Spelled.ingredientFor_append (h : t.Spelled) {p : Ingredient × String} (hp : p ∈ t.walk)
    {w : Word} (hw : w.text = p.2) {more : List Syllable}
    (hmore : ∀ s ∈ more, ∀ c ∈ p.1.kids, c.morpheme ≠ s.text) :
    t.ingredientFor ⟨w.syllables ++ more⟩ = p.1.given := by
  obtain ⟨s, -, hpath⟩ := h.exists_path
  obtain ⟨path, hword, hnode⟩ := hpath p hp
  rw [hword] at hw
  have hstays : (path ++ more).foldl descend t.root = p.1 := by
    rw [List.foldl_append, hnode, foldl_descend_of_forall_ne hmore]
  rw [Word.text_injective hw, ingredientFor, ← hstays]
  rfl

/-- **The word of a node leads to the node.** -/
theorem Spelled.ingredientFor_word (h : t.Spelled) {p : Ingredient × String} (hp : p ∈ t.walk)
    {w : Word} (hw : w.text = p.2) :
    t.ingredientFor w = if p.1.isLeaf then p.1.leaf else p.1 := by
  have hnode : t.ingredientFor ⟨w.syllables ++ []⟩ = p.1.given :=
    h.ingredientFor_append hp hw nofun
  rw [List.append_nil] at hnode
  exact hnode

/-- The word of a node other than the root starts with the word of the root and goes on. -/
theorem Spelled.root_prefix (h : t.Spelled) {p : Ingredient × String} (hp : p ∈ t.walk)
    (hroot : p.1.name ≠ t.root.name) {w : Word} (hw : w.text = p.2) :
    1 < w.syllables.length ∧ t.root.morpheme.toList <+: w.letters := by
  obtain ⟨s, hs, hpath⟩ := h.exists_path
  obtain ⟨path, hword, hnode⟩ := hpath p hp
  rw [hword] at hw
  rw [Word.text_injective hw, hs, Syllable.text, String.toList_ofList]
  constructor
  · cases path with
    | nil =>
      rw [← hnode] at hroot
      exact absurd rfl hroot
    | cons a path => simp [trail]
  · simp [trail, Word.letters]

/-- A node is found by its name. -/
theorem Spelled.find?_name (h : t.Spelled) {p : Ingredient × String} (hp : p ∈ t.walk) :
    t.walk.find? (·.1.name == p.1.name) = some p :=
  find?_of_nodup h.names hp

end Taxonomy

end DeliTalk
