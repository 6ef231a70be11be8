import DeliTalk.Chance
import DeliTalk.Personality

/-!
# Learning: how a machine gets better at its own language

Two loops run side by side.

* Skills: a construct used with success grows, with diminishing returns, up to one
  (`Language.grow`); a construct left alone fades with the logarithm of the turns it sat idle
  (`Personality.fade`).
* Senses: every heard word owns a weighted choice of entries, all alike at first
  (`Personality.seeded`); a confirmation doubles the weight of the sense each word was read with
  (`Personality.reinforce`).
-/

namespace DeliTalk

/-- A machine: its personality and its source of chance. -/
structure Mind (R : Type) where
  personality : Personality R
  chance : Chance R

namespace Mind

variable {R : Type} {α : Type}

/-- An act on the source of chance as an act of the machine. -/
def lucky (x : Luck R α) : Act (Mind R) α :=
  Act.on (·.chance) (fun c m => { m with chance := c }) x

/-- Changes the personality. -/
def change (f : Personality R → Personality R) : Act (Mind R) Unit :=
  modify fun m => { m with personality := f m.personality }

end Mind

variable {R : Type} [Scalar R]

/-! ## 1. Skills -/

/-- The least a skill counts for when it grows. -/
def skillFloor : R := 0.05

/-- What fading is divided by. -/
def fadeDivisor : R := 1000.0

/-- A skill after one more use, the use counting as much as `delta` says. -/
def grown (skill delta : R) : R :=
  let base := Scalar.greatest skill skillFloor
  Scalar.least 1.0 (base + Scalar.ln (base * 100.0) / 100.0 * delta)

/-- A skill after so many idle turns. -/
def faded (skill : R) (idle : Int) : R :=
  Scalar.greatest 0.0 (skill - Scalar.ln (Scalar.ofInt (1 + idle)) / fadeDivisor)

namespace Personality

/-- Lets one skill grow and resets its counter. -/
def exercise (delta : Language R) (p : Personality R) (skill : Skill) : Personality R :=
  { p with
    language := p.language.set skill (grown (p.language.get skill) (delta.get skill))
    idleTurns := Register.put skill.name 0 p.idleTurns }

/-- Lets every skill grow that a report counts as used. -/
def upgrade (p : Personality R) (delta : Language R) : Personality R :=
  delta.used.foldl (exercise delta) p

/-- The turns a skill has been idle, this one included. -/
def idleFor (p : Personality R) (skill : Skill) : Int :=
  (Register.find? skill.name p.idleTurns).getD 0 + 1

/-- Counts one more idle turn of a skill. -/
def tick (p : Personality R) (skill : Skill) : Personality R :=
  { p with idleTurns := Register.put skill.name (p.idleFor skill) p.idleTurns }

/-- Lets one skill fade. A counter at or below minus one has no logarithm, and one may be too large
for a scalar; it is counted up all the same. -/
def fadeOne (p : Personality R) (skill : Skill) : Except Fault Unit × Personality R :=
  let idle := p.idleFor skill
  let p := p.tick skill
  if !Scalar.isFinite (Scalar.ofInt idle : R) then (.error .oversized, p)
  else if 1 + idle ≤ 0 then (.error .noLogarithm, p)
  else
    (.ok (), { p with language := p.language.set skill (faded (p.language.get skill) idle) })

/-- Lets skills fade one after the other, those that were used excepted. -/
def fadeAll (used : List Skill) : List Skill → Personality R → Except Fault Unit × Personality R
  | [], p => (.ok (), p)
  | skill :: rest, p =>
    if skill ∈ used then fadeAll used rest p
    else
      match fadeOne p skill with
      | (.ok (), p) => fadeAll used rest p
      | (.error e, p) => (.error e, p)

/-- Lets every skill fade that was not used this turn. -/
def fade (used : List Skill) (p : Personality R) : Except Fault Unit × Personality R :=
  fadeAll used Skill.all p

/-! ## 2. Senses -/

/-- What a confirmation adds to a weight, as a multiple of it. -/
def confirmationRate : R := 1.0

/-- The largest weight confirmations lead to. -/
def maxWeight : R := 1000000.0

/-- Every entry with the same weight. -/
def evenCloud (entries : List Entry) : List (Meaning R) := entries.map fun e => ⟨e, 1.0⟩

/-- The senses of a word and the personality that knows them: new words get every entry. -/
def seeded (p : Personality R) (word : String) (entries : List Entry) :
    List (Meaning R) × Personality R :=
  match Register.find? word p.cloud with
  | some cloud => (cloud, p)
  | none =>
    let cloud := evenCloud entries
    (cloud, { p with cloud := Register.put word cloud p.cloud })

/-- The senses of a word, those of one entry with a greater weight, and how many those are. -/
def strengthen (rate : R) (entry : Entry) : List (Meaning R) → List (Meaning R) × Nat
  | [] => ([], 0)
  | m :: rest =>
    let (rest, n) := strengthen rate entry rest
    if m.entry = entry then
      (⟨m.entry, Scalar.least maxWeight (m.weight * (1.0 + rate))⟩ :: rest, n + 1)
    else (m :: rest, n)

/-- Strengthens the sense one word was read with. -/
def reinforceWord (rate : R) (p : Personality R) (w : LexedWord) : Personality R × Nat :=
  match w.entry, Register.find? w.word p.cloud with
  | some entry, some cloud =>
    let (cloud, n) := strengthen rate entry cloud
    ({ p with cloud := Register.put w.word cloud p.cloud }, n)
  | _, _ => (p, 0)

/-- Strengthens the senses the words of a reading were read with; counts the senses. -/
def reinforce (rate : R) (p : Personality R) (reading : List LexedWord) : Personality R × Nat :=
  reading.foldl
    (fun s w => let (p, n) := reinforceWord rate s.1 w; (p, s.2 + n)) (p, 0)

/-- One word of a reading is strengthened after the other. -/
theorem reinforce_cons (rate : R) (p : Personality R) (w : LexedWord) (rest : List LexedWord) :
    p.reinforce rate (w :: rest) =
      (((reinforceWord rate p w).1.reinforce rate rest).1,
        (reinforceWord rate p w).2 + ((reinforceWord rate p w).1.reinforce rate rest).2) := by
  have key : ∀ (ws : List LexedWord) (q : Personality R) (n : Nat),
      ws.foldl (fun s w => ((reinforceWord rate s.1 w).1, s.2 + (reinforceWord rate s.1 w).2))
        (q, n) = ((q.reinforce rate ws).1, n + (q.reinforce rate ws).2) := by
    intro ws
    induction ws with
    | nil => exact fun q n => rfl
    | cons v vs ih =>
      intro q n
      have hq : q.reinforce rate (v :: vs) = _ :=
        ih (reinforceWord rate q v).1 (0 + (reinforceWord rate q v).2)
      rw [List.foldl_cons, ih, hq, Nat.zero_add, Nat.add_assoc]
  rw [← Nat.zero_add (reinforceWord rate p w).2]
  exact key rest (reinforceWord rate p w).1 (0 + (reinforceWord rate p w).2)

end Personality

/-! ## 3. Acts of a mind -/

namespace Mind

/-- The senses of a word, seeded on first hearing. -/
def senses (word : String) (entries : List Entry) : Act (Mind R) (List (Meaning R)) :=
  Act.always fun m =>
    let (cloud, p) := m.personality.seeded word entries
    (cloud, { m with personality := p })

/-- A sense of a word, drawn from its cloud. -/
def sampleSense (word : String) (entries : List Entry) : Act (Mind R) Entry := do
  let cloud ← senses word entries
  let m ← lucky (pickWeighted Meaning.weight cloud)
  return m.entry

/-- Lets every skill fade that was not used this turn. -/
def fade (used : List Skill) : Act (Mind R) Unit :=
  Act.on (·.personality) (fun p m => { m with personality := p })
    (Act.ofStep (Personality.fade used))

end Mind

end DeliTalk
