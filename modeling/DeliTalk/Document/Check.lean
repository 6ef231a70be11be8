import DeliTalk.Document

/-!
# Checking documents

Reading a typed value out of a document either succeeds or reports every problem at once, each
with the place it was found at. Problems are listed in the order the fields of the value are
declared, depth first.

* `Flaw`, `Problem`: what is wrong, and where.
* `Check`: a value or the problems that stand in its way. Two checks put side by side report
  the problems of both.
* `Check.GivesIf`: a value where it fits, too much depth where it does not.
-/

namespace DeliTalk

/-- One step into a document. -/
inductive Step where
  | field (name : String)
  | item (index : Nat)
deriving Repr, DecidableEq

/-- What can be wrong with a part of a document. -/
inductive Flaw where
  | missing
  | notText
  | notNumber
  | unreadableNumber
  | notInteger
  | unreadableInteger
  | oversizedInteger
  | fractional
  | notFinite
  | notFlag
  | unreadableFlag
  | notList
  | notMap
  | notSet
  | notRecord
  | notTagged
  | untagged
  | unknownTag
  | notListed
  | tooLowStrict
  | tooLow
  | tooHigh
  | notTime
  | unreadableTime
  | impossibleTime
  | tooDeep
  | malformed
deriving Repr, DecidableEq

/-- The code a flaw is reported under. -/
def Flaw.code : Flaw → String
  | missing => "missing"
  | notText => "string_type"
  | notNumber => "float_type"
  | unreadableNumber => "float_parsing"
  | notInteger => "int_type"
  | unreadableInteger => "int_parsing"
  | oversizedInteger => "int_parsing_size"
  | fractional => "int_from_float"
  | notFinite => "finite_number"
  | notFlag => "bool_type"
  | unreadableFlag => "bool_parsing"
  | notList => "list_type"
  | notMap => "dict_type"
  | notSet => "set_type"
  | notRecord => "model_type"
  | notTagged => "model_attributes_type"
  | untagged => "union_tag_not_found"
  | unknownTag => "union_tag_invalid"
  | notListed => "enum"
  | tooLowStrict => "greater_than"
  | tooLow => "greater_than_equal"
  | tooHigh => "less_than_equal"
  | notTime => "datetime_type"
  | unreadableTime => "datetime_from_date_parsing"
  | impossibleTime => "datetime_parsing"
  | tooDeep => "recursion_depth_exceeded"
  | malformed => "json_invalid"

/-- A flaw and the place it was found at. -/
structure Problem where
  place : List Step
  flaw : Flaw
deriving Repr, DecidableEq

/-- A value, or the problems that stand in its way. -/
inductive Check (α : Type) where
  | sound (value : α)
  | flawed (problems : List Problem)

namespace Check

variable {α β : Type}

/-- One flaw at the place being read. -/
def fail (flaw : Flaw) : Check α := flawed [⟨[], flaw⟩]

/-- Applies a function to the value. -/
def map (f : α → β) : Check α → Check β
  | sound a => sound (f a)
  | flawed ps => flawed ps

/-- Two checks side by side: the problems of the first come first. -/
def apply (f : Check (α → β)) (x : Check α) : Check β :=
  match f, x with
  | sound g, sound a => sound (g a)
  | sound _, flawed qs => flawed qs
  | flawed ps, sound _ => flawed ps
  | flawed ps, flawed qs => flawed (ps ++ qs)

instance : Applicative Check where
  pure := sound
  map := map
  seq f x := apply f (x ())

/-- A second check on the value of the first. -/
def andThen (x : Check α) (f : α → Check β) : Check β :=
  match x with
  | sound a => f a
  | flawed ps => flawed ps

/-- Reports the problems one step further down. -/
def under (step : Step) : Check α → Check α
  | sound a => sound a
  | flawed ps => flawed (ps.map fun p => { p with place := step :: p.place })

/-- Accepts the value only if it passes a test. -/
def require (test : α → Bool) (flaw : Flaw) (x : Check α) : Check α :=
  x.andThen fun a => if test a then sound a else fail flaw

/-- The value, if there is one. -/
def toOption : Check α → Option α
  | sound a => some a
  | flawed _ => none

@[simp] theorem pure_eq (a : α) : (pure a : Check α) = sound a := rfl

@[simp] theorem map_sound (f : α → β) (a : α) : (f <$> (sound a : Check α)) = sound (f a) := rfl

@[simp] theorem seq_sound (f : α → β) (a : α) :
    ((sound f : Check (α → β)) <*> (sound a : Check α)) = sound (f a) := rfl

@[simp] theorem under_sound (step : Step) (a : α) : under step (sound a) = sound a := rfl

@[simp] theorem andThen_sound (a : α) (f : α → Check β) : andThen (sound a) f = f a := rfl

theorem require_sound {test : α → Bool} {flaw : Flaw} {a : α} (h : test a = true) :
    require test flaw (sound a) = sound a := by simp [require, h]

/-! ## Too much depth -/

variable {fits other : Prop} {a : α} {c : Check α}

/-- Whether a check gives a value if it fits, and finds nothing but too much depth if it does
not. -/
def GivesIf (fits : Prop) (a : α) (c : Check α) : Prop :=
  (fits → c = .sound a) ∧
    (¬fits → ∃ ps, c = .flawed ps ∧ ps ≠ [] ∧ ∀ p ∈ ps, p.flaw = Flaw.tooDeep)

theorem GivesIf.congr (h : GivesIf fits a c) (hiff : fits ↔ other) : GivesIf other a c := by
  rwa [GivesIf, ← hiff]

theorem givesIf_sound (h : fits) : GivesIf fits a (.sound a) :=
  ⟨fun _ => rfl, fun hn => absurd h hn⟩

theorem givesIf_tooDeep (h : ¬fits) : GivesIf fits a (.fail .tooDeep) :=
  ⟨fun hf => absurd hf h, fun _ => ⟨_, rfl, by simp, by simp⟩⟩

theorem GivesIf.map (f : α → β) (h : GivesIf fits a c) : GivesIf fits (f a) (f <$> c) := by
  refine ⟨fun hf => by rw [h.1 hf, map_sound], ?_⟩
  intro hn
  obtain ⟨ps, hc, hps⟩ := h.2 hn
  exact ⟨ps, by rw [hc]; rfl, hps⟩

theorem GivesIf.under (step : Step) (h : GivesIf fits a c) : GivesIf fits a (c.under step) := by
  refine ⟨fun hf => by rw [h.1 hf, under_sound], ?_⟩
  intro hn
  obtain ⟨ps, hc, hne, hps⟩ := h.2 hn
  refine ⟨ps.map fun p => { p with place := step :: p.place }, by rw [hc]; rfl, by simpa using hne,
    ?_⟩
  intro p hp
  obtain ⟨q, hq, rfl⟩ := List.mem_map.mp hp
  exact hps q hq

/-- Two values are given side by side if both of them fit. -/
theorem GivesIf.seq {f : α → β} {g : Check (α → β)} (hg : GivesIf fits f g)
    (hc : GivesIf other a c) : GivesIf (fits ∧ other) (f a) (g <*> c) := by
  refine ⟨fun hf => by rw [hg.1 hf.1, hc.1 hf.2, seq_sound], ?_⟩
  intro hn
  by_cases hfits : fits
  · obtain ⟨ps, hps⟩ := hc.2 fun hother => hn ⟨hfits, hother⟩
    rw [hg.1 hfits]
    exact ⟨ps, by rw [hps.1]; rfl, hps.2⟩
  · obtain ⟨ps, hps, hne, hdeep⟩ := hg.2 hfits
    rw [hps]
    by_cases hother : other
    · rw [hc.1 hother]
      exact ⟨ps, rfl, hne, hdeep⟩
    · obtain ⟨qs, hqs, -, hdeep'⟩ := hc.2 hother
      rw [hqs]
      refine ⟨ps ++ qs, rfl, by simp [hne], ?_⟩
      intro p hp
      exact (List.mem_append.mp hp).elim (hdeep p) (hdeep' p)

end Check

end DeliTalk
