import DeliTalk.Proofs.TreeWords
import DeliTalk.Taxonomy.House
import Mathlib.Data.List.Forall2

/-!
# Finding a node

A place in a tree says which child to take, node by node from the root on. Written as lists of
numbers, places stand in order depth first: a place comes before those below it, and those below a
child before those below a later one. The walk goes through all places in this order, without a
condition on names or morphemes. A name may occur twice; then it refers to the first node of that
name, whichever way it is looked for.

* `Ingredient.lineage`, `Ingredient.Stands`: the nodes on the way to a place, and what is found
  there.
* `Ingredient.places`, `ordered_places`, `mem_places`: the places of a tree, in order.
* `Ingredient.stands_places`: the walk goes from place to place.
* `Taxonomy.First`, `Taxonomy.ways_agree`: words, nodes and categories of a name.
-/

namespace DeliTalk

namespace Ingredient

/-! ## 1. Places -/

/-- The nodes on the way from a node to a place below it, the node itself first, if there is such a
place. -/
def lineage : Ingredient → List Nat → Option (List Ingredient)
  | i, [] => some [i]
  | i, k :: place => (i.kids[k]?).bind fun c => (lineage c place).map (i :: ·)

/-- Whether a node with its word is found at a place: the last node on the way there, and the
morphemes of all of them. -/
def Stands (root : Ingredient) (place : List Nat) (p : Ingredient × String) : Prop :=
  ∃ line, root.lineage place = some line ∧ line.getLast? = some p.1 ∧
    p.2 = String.join (line.map (·.morpheme))

mutual

/-- The places of a tree: the root first, then those below each child. -/
def places : Ingredient → List (List Nat)
  | ⟨_, _, none⟩ => [[]]
  | ⟨_, _, some cs⟩ => [] :: placesAmong cs 0

/-- The places of several trees, which are counted on from a number. -/
def placesAmong : List Ingredient → Nat → List (List Nat)
  | [], _ => []
  | c :: rest, k => (places c).map (k :: ·) ++ placesAmong rest (k + 1)

end

theorem places_eq (i : Ingredient) : i.places = [] :: placesAmong i.kids 0 := by
  obtain ⟨name, morpheme, children⟩ := i
  cases children <;> rfl

/-- A place among several trees is a place of one of them. -/
theorem mem_placesAmong {place : List Nat} : ∀ {cs : List Ingredient} {k : Nat},
    place ∈ placesAmong cs k ↔
      ∃ j c below, place = (k + j) :: below ∧ cs[j]? = some c ∧ below ∈ places c
  | [], k => by simp [placesAmong]
  | c :: rest, k => by
    rw [placesAmong, List.mem_append, List.mem_map, mem_placesAmong]
    constructor
    · rintro (⟨below, hbelow, rfl⟩ | ⟨j, d, below, rfl, hd, hbelow⟩)
      · exact ⟨0, c, below, rfl, rfl, hbelow⟩
      · exact ⟨j + 1, d, below, by rw [Nat.add_right_comm, Nat.add_assoc], hd, hbelow⟩
    · rintro ⟨j, d, below, rfl, hd, hbelow⟩
      cases j with
      | zero =>
        cases hd
        exact Or.inl ⟨below, hbelow, rfl⟩
      | succ j => exact Or.inr ⟨j, d, below, by rw [Nat.add_right_comm, Nat.add_assoc], hd, hbelow⟩

/-- **The places of a tree** are those that can be reached. -/
theorem mem_places : ∀ (place : List Nat) (i : Ingredient),
    place ∈ i.places ↔ (i.lineage place).isSome = true
  | [], i => by simp [places_eq, lineage]
  | k :: place, i => by
    rw [places_eq, List.mem_cons, mem_placesAmong, lineage]
    constructor
    · rintro (h | ⟨j, c, below, heq, hc, hbelow⟩)
      · cases h
      · cases heq
        rw [Nat.zero_add, hc, Option.bind_some, Option.isSome_map]
        exact (mem_places place c).mp hbelow
    · intro h
      cases hc : i.kids[k]? with
      | none =>
        rw [hc] at h
        cases h
      | some c =>
        rw [hc, Option.bind_some, Option.isSome_map] at h
        exact Or.inr ⟨k, c, place, by rw [Nat.zero_add], hc, (mem_places place c).mpr h⟩

mutual

/-- **Places stand in order**, so none of them twice. -/
theorem ordered_places : ∀ i : Ingredient, i.places.Pairwise (· < ·)
  | ⟨_, _, none⟩ => List.pairwise_singleton _ _
  | ⟨_, _, some cs⟩ => by
    refine List.pairwise_cons.mpr ⟨fun place h => ?_, ordered_placesAmong cs 0⟩
    obtain ⟨j, c, below, rfl, -, -⟩ := mem_placesAmong.mp h
    exact List.nil_lt_cons _ _

theorem ordered_placesAmong : ∀ (cs : List Ingredient) (k : Nat),
    (placesAmong cs k).Pairwise (· < ·)
  | [], _ => List.Pairwise.nil
  | c :: rest, k => by
    refine List.pairwise_append.mpr ⟨?_, ordered_placesAmong rest (k + 1), ?_⟩
    · refine List.pairwise_map.mpr ((ordered_places c).imp fun h => ?_)
      exact List.cons_lt_cons_iff.mpr (Or.inr ⟨rfl, h⟩)
    · intro place hplace later hlater
      obtain ⟨below, -, rfl⟩ := List.mem_map.mp hplace
      obtain ⟨j, d, below', rfl, -, -⟩ := mem_placesAmong.mp hlater
      exact List.cons_lt_cons_iff.mpr (Or.inl (by omega))

end

/-! ## 2. From place to place -/

theorem stands_nil (i : Ingredient) : i.Stands [] (i, i.morpheme) :=
  ⟨[i], rfl, rfl, by simp⟩

/-- What is found below a child is found below its parent. -/
theorem Stands.cons {i c node : Ingredient} {word : String} {k : Nat} {place : List Nat}
    (hc : i.kids[k]? = some c) (h : c.Stands place (node, word)) :
    i.Stands (k :: place) (node, i.morpheme ++ word) := by
  obtain ⟨line, hline, hlast, hword⟩ := h
  refine ⟨i :: line, ?_, ?_, ?_⟩
  · rw [lineage, hc, Option.bind_some, hline, Option.map_some]
  · rw [List.getLast?_cons, hlast, Option.getD_some]
  · rw [List.map_cons, String.join_cons, ← hword]

mutual

/-- **The walk goes from place to place**, and hands on the word read so far. -/
theorem stands_places : ∀ (i : Ingredient) (done : String),
    List.Forall₂ (fun place p => ∃ word, i.Stands place (p.1, word) ∧ p.2 = done ++ word)
      i.places (Taxonomy.visit [(i, done ++ i.morpheme)])
  | ⟨name, morpheme, none⟩, done => by
    rw [Taxonomy.visit_cons]
    refine .cons ⟨morpheme, stands_nil _, rfl⟩ ?_
    rw [List.append_nil, Taxonomy.branches, kids, Option.getD_none, List.map_nil,
      Taxonomy.visit_nil]
    exact .nil
  | ⟨name, morpheme, some cs⟩, done => by
    rw [Taxonomy.visit_cons, List.append_nil]
    refine .cons ⟨morpheme, stands_nil _, rfl⟩ ?_
    refine (stands_placesAmong cs 0 (done ++ morpheme)).imp fun place p h => ?_
    obtain ⟨j, c, below, word, rfl, hc, hstands, hword⟩ := h
    rw [Nat.zero_add]
    exact ⟨morpheme ++ word, hstands.cons hc, by rw [hword, String.append_assoc]⟩

theorem stands_placesAmong : ∀ (cs : List Ingredient) (k : Nat) (done : String),
    List.Forall₂ (fun place p => ∃ j c below word, place = (k + j) :: below ∧ cs[j]? = some c ∧
        c.Stands below (p.1, word) ∧ p.2 = done ++ word)
      (placesAmong cs k) (Taxonomy.visit (cs.map fun c => (c, done ++ c.morpheme)))
  | [], k, done => by
    rw [List.map_nil, Taxonomy.visit_nil]
    exact .nil
  | c :: rest, k, done => by
    rw [placesAmong, List.map_cons, Taxonomy.visit_cons_eq_append]
    refine List.rel_append ?_ ?_
    · refine List.forall₂_map_left_iff.mpr ((stands_places c done).imp fun below p h => ?_)
      obtain ⟨word, hstands, hword⟩ := h
      exact ⟨0, c, below, word, rfl, rfl, hstands, hword⟩
    · refine (stands_placesAmong rest (k + 1) done).imp fun place p h => ?_
      obtain ⟨j, d, below, word, rfl, hd, hstands, hword⟩ := h
      exact ⟨j + 1, d, below, word, by rw [Nat.add_right_comm, Nat.add_assoc], hd, hstands, hword⟩

end

end Ingredient

namespace Taxonomy

/-- The walk of a tree goes through its places. -/
theorem stands_walk (t : Taxonomy) : List.Forall₂ t.root.Stands t.root.places t.walk := by
  have h := t.root.stands_places ""
  rw [String.empty_append] at h
  refine h.imp fun place p hp => ?_
  obtain ⟨word, hstands, hword⟩ := hp
  rw [String.empty_append] at hword
  rw [hword.symm] at hstands
  exact hstands

/-! ## 3. Names -/

/-- Whether a node is the first one of a name in the walk. -/
def First (t : Taxonomy) (name : String) (p : Ingredient × String) : Prop :=
  ∃ before after, t.walk = before ++ p :: after ∧ p.1.name = name ∧ ∀ q ∈ before, q.1.name ≠ name

variable {t : Taxonomy} {name : String}

theorem first_of_find? {p : Ingredient × String}
    (h : t.walk.find? (·.1.name == name) = some p) : t.First name p := by
  obtain ⟨hname, before, after, hwalk, hbefore⟩ := List.find?_eq_some_iff_append.mp h
  refine ⟨before, after, hwalk, beq_iff_eq.mp hname, fun q hq => ?_⟩
  simpa using hbefore q hq

theorem find?_eq (t : Taxonomy) (name : String) :
    t.find? name = (t.walk.find? (·.1.name == name)).map (·.1.given) := by
  rw [find?, node?, Option.map_map]
  rfl

theorem includes_eq (t : Taxonomy) (category i : Ingredient) :
    t.includes category i = match t.walk.find? (·.1.name == category.name) with
      | some p => p.1.includes i
      | none => false := by
  rw [includes, node?]
  cases t.walk.find? (·.1.name == category.name) <;> rfl

/-- **The ways to find a node agree**, whatever the names and morphemes of a tree are. The walk goes
through every place of the tree once, depth first, with the node that is there and the morphemes on
the way. A name has a word if and only if it has a node, and covers something if and only if some
node of the walk has it; then the word, the node and what the name covers, and the word of that node
and what that node covers, are all those of the first such node. -/
theorem ways_agree (t : Taxonomy) :
    (∃ places : List (List Nat), places.Pairwise (· < ·) ∧
      (∀ place, place ∈ places ↔ (t.root.lineage place).isSome = true) ∧
      List.Forall₂ t.root.Stands places t.walk) ∧
    ∀ i : Ingredient,
      ((t.wordFor? i).isSome = true ↔ (t.find? i.name).isSome = true) ∧
      ((t.find? i.name).isSome = true ↔ ∃ p ∈ t.walk, p.1.name = i.name) ∧
      ((∃ j, t.includes i j = true) ↔ ∃ p ∈ t.walk, p.1.name = i.name) ∧
      ∀ found, t.find? i.name = some found → ∃ p, t.First i.name p ∧ found = p.1.given ∧
        t.wordFor? i = some p.2 ∧ t.wordFor? found = some p.2 ∧
        ∀ j, t.includes i j = p.1.includes j ∧ t.includes found j = p.1.includes j := by
  refine ⟨⟨t.root.places, t.root.ordered_places, fun place => Ingredient.mem_places place _,
    t.stands_walk⟩, fun i => ?_⟩
  have hsome : (t.walk.find? (·.1.name == i.name)).isSome = true ↔
      ∃ p ∈ t.walk, p.1.name = i.name := by
    simp [List.find?_isSome]
  refine ⟨?_, ?_, ?_, fun found hfound => ?_⟩
  · rw [wordFor?_eq, find?_eq, Option.isSome_map, Option.isSome_map]
  · rw [find?_eq, Option.isSome_map]
    exact hsome
  · rw [← hsome]
    cases hfind : t.walk.find? (·.1.name == i.name) with
    | none => simp [includes_eq, hfind]
    | some p =>
      simp only [includes_eq, hfind, Option.isSome_some, iff_true]
      exact ⟨p.1, p.1.covers_self⟩
  · rw [find?_eq] at hfound
    obtain ⟨p, hp, rfl⟩ := Option.map_eq_some_iff.mp hfound
    have hfirst := first_of_find? hp
    obtain ⟨before, after, -, hname, -⟩ := id hfirst
    have hagain : t.walk.find? (·.1.name == p.1.given.name) = some p := by
      rw [Ingredient.name_given, hname, hp]
    refine ⟨p, hfirst, rfl, ?_, ?_, fun j => ⟨?_, ?_⟩⟩
    · rw [wordFor?_eq, hp, Option.map_some]
    · rw [wordFor?_eq, hagain, Option.map_some]
    · rw [includes_eq, hp]
    · rw [includes_eq, hagain]

namespace House

/-- A kind of cheese. -/
def cheese : Ingredient := item "cheese" "pe"

/-- A menu with a dairy product of the same name as a category further on. -/
def twoCheeses : Taxonomy where
  root := category "ingredient" "sa"
    [base, category "dairy" "ta" [cheese], category "cheese" "wa" [item "swiss" "pi"]]
  breads := breads
  breads_eq := rfl

/-- Where two nodes are called cheese, all three ways lead to the first one, which is the dairy
product and covers no swiss. -/
theorem first_cheese : ∃ found, twoCheeses.find? "cheese" = some found ∧
    twoCheeses.wordFor? found = some "satape" ∧
    twoCheeses.includes found (item "swiss" "pi") = false := by
  obtain ⟨-, hnames⟩ := ways_agree twoCheeses
  obtain ⟨hsome, -, -, hfound⟩ := hnames cheese
  have hsatape : twoCheeses.wordFor? cheese = some "satape" := by decide
  have hswiss : twoCheeses.includes cheese (item "swiss" "pi") = false := by decide +kernel
  obtain ⟨found, hfind⟩ := Option.isSome_iff_exists.mp (hsome.mp (by rw [hsatape]; rfl))
  obtain ⟨p, -, -, hword, hagain, hcovers⟩ := hfound found hfind
  refine ⟨found, hfind, ?_, ?_⟩
  · rw [hagain, ← hword, hsatape]
  · rw [(hcovers _).2, ← (hcovers _).1, hswiss]

end House

end Taxonomy

end DeliTalk
