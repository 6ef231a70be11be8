import DeliTalk.Lexicon

/-!
# Outlines: how the words of a sentence belong together

The grammar of clauses, as far as it depends on the words alone and not on the listener:

    chain      ->  clause [conjunction chain]
    clause     ->  [number] adverb* placement? noun verb
    placement  ->  noun (before | after)

Reading takes clauses from the front as long as a conjunction joins them. A number that is zero,
or no number at all, makes no clause; one that looks like digits and cannot be read stops the
reading.

* `Clause`, `Outline`: what was read, and how the reading ended.
* `Clause.read`, `Outline.read`: reading; `Clause.rest_lt` says that a clause takes words.
-/

namespace DeliTalk

/-- An adverb of the grammar. -/
inductive Adverb where
  | ever | negation
deriving Repr, DecidableEq

/-- Which side of its anchor an ingredient goes to. -/
inductive Side where
  | before | after
deriving Repr, DecidableEq

/-- One clause: what is done to what, and the constructs around it, outermost first. -/
structure Clause where
  count : Option Nat
  adverbs : List Adverb
  placement : Option (Tagged × Side)
  noun : Tagged
  verb : Tagged
deriving Repr

/-- The adverb a word is. -/
def Adverb.of? (t : Tagged) : Option Adverb :=
  match t.usage? with
  | some .ever => some ever
  | some .negation => some negation
  | _ => none

/-- The side a preposition names. -/
def Side.of? (t : Tagged) : Option Side :=
  match t.usage? with
  | some .before => some before
  | some .after => some after
  | _ => none

/-- What reading a clause comes to. -/
inductive ClauseReading where
  | clause (c : Clause) (rest : List Tagged)
  | none
  | unreadable (cause : Numeral.Unread)

namespace Clause

/-- The adverbs in front. -/
def readAdverbs : List Tagged → List Adverb × List Tagged
  | [] => ([], [])
  | t :: rest =>
    match Adverb.of? t with
    | some a => let (more, rest) := readAdverbs rest; (a :: more, rest)
    | none => ([], t :: rest)

/-- A noun and a verb. -/
def readCore : List Tagged → Option ((Tagged × Tagged) × List Tagged)
  | noun :: verb :: rest =>
    if noun.isNoun && verb.part == some .verb then some ((noun, verb), rest) else none
  | _ => none

/-- A noun and a preposition. -/
def readPlacement : List Tagged → Option ((Tagged × Side) × List Tagged)
  | anchor :: preposition :: rest =>
    if anchor.isNoun then (Side.of? preposition).map fun side => ((anchor, side), rest) else none
  | _ => none

/-- A clause without its number. -/
def readBody (count : Option Nat) (ts : List Tagged) : ClauseReading :=
  let (adverbs, ts) := readAdverbs ts
  let (placement, ts) := match readPlacement ts with
    | some (p, rest) => (some p, rest)
    | none => (none, ts)
  match readCore ts with
  | some ((noun, verb), rest) => .clause ⟨count, adverbs, placement, noun, verb⟩ rest
  | none => .none

/-- A clause. -/
def read (ts : List Tagged) : ClauseReading :=
  match ts with
  | [] => .none
  | t :: rest =>
    if t.is .number then
      match t.entry.map Entry.number? with
      | some (.error cause) => .unreadable cause
      | some (.ok (some (n + 1))) => readBody (some (n + 1)) rest
      | _ => .none
    else readBody none (t :: rest)

/-! ### What a clause leaves -/

theorem readAdverbs_le : ∀ ts : List Tagged, (readAdverbs ts).2.length ≤ ts.length
  | [] => Nat.le_refl _
  | t :: rest => by
    have := readAdverbs_le rest
    unfold readAdverbs
    split
    · simp only [List.length_cons]; omega
    · simp

theorem readCore_lt {ts rest : List Tagged} {x : Tagged × Tagged}
    (h : readCore ts = some (x, rest)) : rest.length < ts.length := by
  unfold readCore at h
  split at h
  · split at h
    · cases h; simp only [List.length_cons]; omega
    · cases h
  · cases h

theorem readPlacement_lt {ts rest : List Tagged} {x : Tagged × Side}
    (h : readPlacement ts = some (x, rest)) : rest.length < ts.length := by
  unfold readPlacement at h
  split at h
  · split at h
    · obtain ⟨side, -, hs⟩ := Option.map_eq_some_iff.mp h
      cases hs
      simp only [List.length_cons]
      omega
    · cases h
  · cases h

theorem readBody_lt {count : Option Nat} {ts rest : List Tagged} {c : Clause}
    (h : readBody count ts = .clause c rest) : rest.length < ts.length := by
  have ha := readAdverbs_le ts
  unfold readBody at h
  generalize readAdverbs ts = r at h ha
  obtain ⟨adverbs, us⟩ := r
  simp only at h ha
  cases hp : readPlacement us with
  | none =>
    simp only [hp] at h
    cases hc : readCore us with
    | none => simp [hc] at h
    | some r =>
      obtain ⟨⟨noun, verb⟩, vs⟩ := r
      simp only [hc, ClauseReading.clause.injEq] at h
      obtain ⟨-, rfl⟩ := h
      have := readCore_lt hc
      omega
  | some q =>
    obtain ⟨p, ws⟩ := q
    have := readPlacement_lt hp
    simp only [hp] at h
    cases hc : readCore ws with
    | none => simp [hc] at h
    | some r =>
      obtain ⟨⟨noun, verb⟩, vs⟩ := r
      simp only [hc, ClauseReading.clause.injEq] at h
      obtain ⟨-, rfl⟩ := h
      have := readCore_lt hc
      omega

/-- **A clause takes words from the front.** -/
theorem rest_lt {ts rest : List Tagged} {c : Clause} (h : read ts = .clause c rest) :
    rest.length < ts.length := by
  unfold read at h
  split at h
  · cases h
  · split at h
    · split at h
      · cases h
      · have := readBody_lt h
        simp only [List.length_cons]
        omega
      · cases h
    · exact readBody_lt h

end Clause

/-- How reading a chain of clauses ended: before words that are no further clause, or at a
number that cannot be read. -/
inductive Ending where
  | rest (words : List Tagged)
  | unreadable (cause : Numeral.Unread)

/-- A chain of clauses in spoken order. -/
structure Outline where
  first : Clause
  more : List Clause
  ending : Ending

namespace Outline

/-- The clauses that conjunctions join to the one before. -/
def readMore (ts : List Tagged) : List Clause × Ending :=
  match ts with
  | [] => ([], .rest [])
  | t :: rest =>
    if t.is .conjunction then
      match _h : Clause.read rest with
      | .clause c left => let (more, ending) := readMore left; (c :: more, ending)
      | .none => ([], .rest (t :: rest))
      | .unreadable cause => ([], .unreadable cause)
    else ([], .rest (t :: rest))
termination_by ts.length
decreasing_by
  have := Clause.rest_lt _h
  simp only [List.length_cons]
  omega

/-- What reading a whole chain comes to. -/
inductive Reading where
  | outline (o : Outline)
  | none
  | unreadable (cause : Numeral.Unread)

/-- A chain of clauses. -/
def read (ts : List Tagged) : Reading :=
  match Clause.read ts with
  | .clause c rest => let (more, ending) := readMore rest; .outline ⟨c, more, ending⟩
  | .none => .none
  | .unreadable cause => .unreadable cause

/-- Whether every word belongs to a clause. -/
def isWhole (o : Outline) : Bool :=
  match o.ending with
  | .rest [] => true
  | _ => false

end Outline

end DeliTalk
