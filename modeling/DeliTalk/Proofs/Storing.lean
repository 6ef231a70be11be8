import DeliTalk.Personality.Store
import DeliTalk.Proofs.Frames
import DeliTalk.Proofs.Reals

/-!
# Which personalities are loaded as they were saved

A personality is read from a document only if its shares lie between zero and one, its weights are
above zero and its trees are not too high. Just these personalities are loaded as they were saved,
but for what belongs to the moment.

* `Check.Admits`: what is known of a value that is read, if one is.
* `Personality.Storable`: what has to be true of a personality.
* `Personality.admits_ofDoc`: whatever is read is storable.
* `Personality.load_saved_iff`: just what is storable is loaded as it was saved.
* `Sandwich.Valid`, `Personality.Valid`: what is read from some document.
-/

namespace DeliTalk

variable {R α β : Type}

/-! ## 1. What is known of a value that is read -/

namespace Check

/-- What is known of the value of a check, if there is one. -/
def Admits (c : Check α) (post : α → Prop) : Prop := ∀ a, c = .sound a → post a

variable {c : Check α} {post : α → Prop} {post' : β → Prop}

theorem admits_any (c : Check α) : c.Admits fun _ => True := fun _ _ => trivial

theorem admits_sound {a : α} (h : post a) : (sound a).Admits post := by
  intro b hb
  rwa [← sound.inj hb]

theorem admits_flawed (ps : List Problem) : (flawed ps : Check α).Admits post := by
  intro a ha
  cases ha

theorem admits_andThen {f : α → Check β} (h : ∀ a, c = .sound a → (f a).Admits post') :
    (c.andThen f).Admits post' := by
  cases c with
  | sound a => exact h a rfl
  | flawed ps => exact admits_flawed ps

theorem admits_map {f : α → β} (hc : c.Admits post) (h : ∀ a, post a → post' (f a)) :
    (f <$> c).Admits post' := by
  cases c with
  | sound a => exact admits_sound (h a (hc a rfl))
  | flawed ps => exact admits_flawed ps

/-- Two checks side by side: the function is known by what it makes of what is known. -/
theorem admits_seq {g : Check (α → β)} (hc : c.Admits post)
    (hg : g.Admits fun f => ∀ a, post a → post' (f a)) : (g <*> c).Admits post' := by
  cases g with
  | sound f =>
    cases c with
    | sound a => exact admits_sound (hg f rfl a (hc a rfl))
    | flawed ps => exact admits_flawed ps
  | flawed ps => cases c <;> exact admits_flawed _

theorem Admits.under {step : Step} (h : c.Admits post) : (c.under step).Admits post := by
  cases c with
  | sound a => exact h
  | flawed ps => exact admits_flawed _

theorem eq_sound_of_toOption {a : α} (h : c.toOption = some a) : c = .sound a := by
  cases c with
  | sound b => exact congrArg sound (Option.some.inj h)
  | flawed ps => cases h

/-- A value that passed a test. -/
theorem admits_require {test : α → Bool} {flaw : Flaw} :
    (c.require test flaw).Admits fun a => test a = true := by
  refine admits_andThen fun a _ => ?_
  by_cases htest : test a = true
  · rw [if_pos htest]
    exact admits_sound htest
  · rw [if_neg htest]
    exact admits_flawed _

end Check

open Check

namespace Doc

variable {read : Doc R → Check α} {post : α → Prop} {fields : List (String × Doc R)}
  {name : String}

theorem admits_field (h : ∀ d, (read d).Admits post) : (field fields name read).Admits post := by
  unfold field
  split
  · exact (h _).under
  · exact admits_flawed _

/-- A field is read, or has its default. -/
theorem admits_fieldOr {default : α} (h : ∀ d, (read d).Admits post) (hdefault : post default) :
    (fieldOr fields name read default).Admits post := by
  unfold fieldOr
  split
  · exact (h _).under
  · exact admits_sound hdefault

theorem admits_asOptional (h : ∀ d, (read d).Admits post) (d : Doc R) :
    (asOptional read d).Admits fun o => ∀ a ∈ o, post a := by
  unfold asOptional
  split
  · exact admits_sound (by simp)
  · exact admits_map (h _) fun a ha b hb => Option.mem_some.mp hb ▸ ha

theorem admits_readItems (h : ∀ d, (read d).Admits post) : ∀ (k : Nat) (ds : List (Doc R)),
    (readItems read k ds).Admits fun as => ∀ a ∈ as, post a
  | _, [] => admits_sound nofun
  | k, d :: rest => by
    refine admits_seq (admits_readItems h (k + 1) rest) (admits_map (h d).under ?_)
    intro a ha as has
    exact List.forall_mem_cons.mpr ⟨ha, has⟩

theorem admits_asListOf (h : ∀ d, (read d).Admits post) (d : Doc R) :
    (asListOf read d).Admits fun as => ∀ a ∈ as, post a := by
  cases d with
  | list items => exact admits_readItems h 0 items
  | _ => exact admits_flawed _

/-- The items of a list, of which there may be none. -/
theorem admits_items (h : ∀ d, (read d).Admits post) :
    (fieldOr fields name (asListOf read) []).Admits fun as => ∀ a ∈ as, post a :=
  admits_fieldOr (admits_asListOf h) nofun

theorem admits_readEntries (h : ∀ d, (read d).Admits post) : ∀ fs : List (String × Doc R),
    (readEntries read fs).Admits fun r => ∀ p ∈ r, post p.2
  | [] => admits_sound nofun
  | (key, d) :: rest => by
    refine admits_seq (admits_readEntries h rest) (admits_map (h d).under ?_)
    intro a ha r hr
    exact List.forall_mem_cons.mpr ⟨ha, hr⟩

theorem admits_asRegisterOf (h : ∀ d, (read d).Admits post) (d : Doc R) :
    (asRegisterOf read d).Admits fun r => ∀ p ∈ r, post p.2 := by
  cases d with
  | map fs => exact admits_readEntries h fs
  | _ => exact admits_flawed _

end Doc

open Doc

/-! ## 2. What is true of what is read -/

namespace Ingredient

theorem heights_le {room : Nat} : ∀ {cs : List Ingredient}, (∀ c ∈ cs, c.height ≤ room) →
    heights cs ≤ room
  | [], _ => Nat.zero_le room
  | c :: rest, h => by
    rw [heights]
    exact Nat.max_le.mpr ⟨h c List.mem_cons_self,
      heights_le fun d hd => h d (List.mem_cons_of_mem c hd)⟩

/-- A tree that is read is no higher than the room. -/
theorem admits_ofDoc : ∀ (room : Nat) (d : Doc R), (ofDoc room d).Admits (·.height ≤ room)
  | 0, _ => admits_flawed _
  | room + 1, d => by
    refine admits_andThen fun fs _ => ?_
    refine admits_seq (admits_fieldOr (admits_asOptional (admits_asListOf (admits_ofDoc room)))
      nofun) ?_
    refine admits_seq (admits_any _) (admits_map (admits_any _) ?_)
    intro name _ morpheme _ children hchildren
    cases children with
    | none => simp [height]
    | some cs =>
      have hcs : heights cs ≤ room := heights_le (hchildren cs rfl)
      simp only [height]
      omega

end Ingredient

namespace Sandwich

/-- A sandwich whose trees are not too high to be read on it. -/
def Storable (s : Sandwich) : Prop :=
  Ingredient.heights s.ingredients ≤ nestingLimit - 1 ∧
    Ingredient.heights s.ensured ≤ nestingLimit - 1

theorem admits_ofDoc [Scalar R] (d : Doc R) : (ofDoc nestingLimit d).Admits Storable := by
  refine admits_andThen fun fs _ => ?_
  have hstack := @Ingredient.admits_ofDoc R (nestingLimit - 1)
  refine admits_seq (admits_any _) (admits_seq (admits_any _) ?_)
  refine admits_seq (admits_items hstack) (admits_map (admits_items hstack) ?_)
  intro ingredients hingredients ensured hensured _ _ _ _
  exact ⟨Ingredient.heights_le hingredients, Ingredient.heights_le hensured⟩

/-- A sandwich that is read from some document. -/
def Valid (s : Sandwich) : Prop := ∃ d : Doc ℝ, ofDoc nestingLimit d = .sound s

theorem Valid.storable {s : Sandwich} (h : s.Valid) : s.Storable := by
  obtain ⟨d, hd⟩ := h
  exact admits_ofDoc d s hd

end Sandwich

/-- A number from zero to one. -/
def IsShare (x : ℝ) : Prop := 0 ≤ x ∧ x ≤ 1

theorem checkShare_of_isShare {x : ℝ} (h : IsShare x) : checkShare x = .sound x := by
  have hlow : (0.0 : ℝ) ≤ x := by
    norm_num
    exact h.1
  have hhigh : x ≤ (1.0 : ℝ) := by
    norm_num
    exact h.2
  unfold checkShare
  rw [decide_eq_true hlow, decide_eq_true hhigh]
  rfl

/-- What is accepted as a share is one. -/
theorem admits_checkShare (x : ℝ) : (checkShare x).Admits IsShare := by
  unfold checkShare
  by_cases hhigh : x ≤ (1.0 : ℝ)
  · by_cases hlow : (0.0 : ℝ) ≤ x
    · rw [decide_eq_true hlow, decide_eq_true hhigh]
      norm_num at hlow hhigh
      exact admits_sound ⟨hlow, hhigh⟩
    · rw [decide_eq_true hhigh, decide_eq_false hlow]
      exact admits_flawed _
  · rw [decide_eq_false hhigh]
    exact admits_flawed _

theorem admits_share {fields : List (String × Doc ℝ)} {name : String} {default : ℝ}
    (h : IsShare default) : (fieldOr fields name asShare default).Admits IsShare :=
  admits_fieldOr (fun _ => admits_andThen fun x _ => admits_checkShare x) h

/-- A preference that is felt to some share, for a tree that is not too high. -/
def Preference.Storable (f : Preference ℝ) : Prop :=
  IsShare f.severity ∧ f.ingredient.height ≤ nestingLimit - 2

theorem Preference.admits_ofDoc (d : Doc ℝ) :
    (ofDoc (nestingLimit - 1) d).Admits Preference.Storable := by
  refine admits_andThen fun fs _ => ?_
  refine admits_seq (admits_share (by norm_num [IsShare])) ?_
  refine admits_map (admits_field (Ingredient.admits_ofDoc _)) ?_
  intro i hi severity hseverity
  exact ⟨hseverity, hi⟩

theorem Meaning.admits_ofDoc (d : Doc ℝ) : (ofDoc d).Admits fun m => 0 < m.weight := by
  refine admits_andThen fun fs _ => ?_
  have hweight : ∀ d : Doc ℝ, (weightOfDoc d).Admits fun x => 0 < x := by
    intro d x hx
    have hpos := admits_require x hx
    norm_num at hpos
    exact hpos
  refine admits_seq (admits_fieldOr hweight (by norm_num)) (admits_map (admits_any _) ?_)
  intro entry _ weight hpos
  exact hpos

namespace Personality

/-- The dispositions that are shares. -/
def shares (p : Personality R) : List R :=
  [p.laziness, p.forgetfulness, p.politeness, p.shyness, p.spite, p.planned, p.spontaneity,
    p.orderSensitivity, p.stress]

/-- What has to be true of a personality for it to be loaded as it was saved. -/
structure Storable (p : Personality ℝ) : Prop where
  shares : ∀ x ∈ p.shares, IsShare x
  preferences : ∀ f ∈ p.allergies ++ p.favorites, f.Storable
  history : ∀ s ∈ p.history, s.Storable
  weights : ∀ c ∈ p.cloud, ∀ m ∈ c.2, 0 < m.weight

/-- **Whatever personality is read from a document is storable.** -/
theorem admits_ofDoc (d : Doc ℝ) : (ofDoc d).Admits Storable := by
  refine admits_andThen fun fs _ => ?_
  -- what belongs to the moment may be anything
  refine admits_seq (admits_any _) (admits_seq (admits_any _) (admits_seq (admits_any _) ?_))
  refine admits_seq (admits_fieldOr (admits_asRegisterOf (admits_asListOf Meaning.admits_ofDoc))
    nofun) ?_
  refine admits_seq (admits_items Sandwich.admits_ofDoc) ?_
  refine admits_seq (admits_any _) (admits_seq (admits_any _) (admits_seq (admits_any _) ?_))
  refine admits_seq (admits_items Preference.admits_ofDoc) ?_
  refine admits_seq (admits_items Preference.admits_ofDoc) ?_
  iterate 8 refine admits_seq (admits_share (by norm_num [IsShare])) ?_
  refine admits_map (admits_share (by norm_num [IsShare])) ?_
  intro laziness h₁ forgetfulness h₂ politeness h₃ shyness h₄ spite h₅ planned h₆ spontaneity h₇
    orderSensitivity h₈ stress h₉ allergies hallergies favorites hfavorites _ _ _ _ _ _
    history hhistory cloud hcloud _ _ _ _ _ _
  refine ⟨?_, ?_, hhistory, hcloud⟩
  · simp only [Personality.shares, List.forall_mem_cons]
    exact ⟨h₁, h₂, h₃, h₄, h₅, h₆, h₇, h₈, h₉, nofun⟩
  · intro f hf
    exact (List.mem_append.mp hf).elim (hallergies f) (hfavorites f)

end Personality

/-! ## 3. What is read of what was saved -/

namespace Doc

theorem withoutNullsFields_cons {key : String} {d : Doc R} (rest : List (String × Doc R))
    (h : d.isNull = false) :
    withoutNullsFields ((key, d) :: rest) = (key, d.withoutNulls) :: withoutNullsFields rest := by
  rw [withoutNullsFields, h, if_neg Bool.false_ne_true]

/-- No field is left out of a map of values that are written. -/
theorem withoutNullsFields_map (write : α → Doc R) : ∀ r : Register α,
    (∀ p ∈ r, (write p.2).isNull = false) →
      withoutNullsFields (r.map fun p => (p.1, write p.2)) =
        r.map fun p => (p.1, (write p.2).withoutNulls)
  | [], _ => rfl
  | p :: rest, h => by
    have ih := withoutNullsFields_map write rest fun q hq => h q (List.mem_cons_of_mem p hq)
    rw [List.map_cons, withoutNullsFields_cons _ (h p List.mem_cons_self), ih, List.map_cons]

/-- Named values are read back if each of them is. -/
theorem readEntries_map {read : Doc R → Check α} (write : α → Doc R) : ∀ r : Register α,
    (∀ p ∈ r, read (write p.2) = .sound p.2) →
      readEntries read (r.map fun p => (p.1, write p.2)) = .sound r
  | [], _ => rfl
  | p :: rest, h => by
    have ih := readEntries_map write rest fun q hq => h q (List.mem_cons_of_mem p hq)
    simp [readEntries, h p List.mem_cons_self, ih]

/-- A list of values that are written is read back if each of them is. -/
theorem asListOf_withoutNulls {read : Doc R → Check α} {write : α → Doc R} {xs : List α}
    (h : ∀ x ∈ xs, read (write x).withoutNulls = .sound x) :
    asListOf read (.list (withoutNullsItems (xs.map write))) = .sound xs := by
  rw [withoutNullsItems_eq_map, List.map_map]
  exact readItems_map 0 xs h

end Doc

theorem Ingredient.not_isNull (i : Ingredient) : (i.toDoc : Doc R).isNull = false := by
  obtain ⟨name, morpheme, _ | cs⟩ := i <;> rfl

theorem Preference.ofDoc_withoutNulls {f : Preference ℝ} (h : f.Storable) :
    ofDoc (nestingLimit - 1) f.toDoc.withoutNulls = .sound f := by
  have hi := Ingredient.ofDoc_withoutNulls (R := ℝ) (nestingLimit - 1 - 1) f.ingredient h.2
  have hshare : asShare (.num f.severity) = .sound f.severity := checkShare_of_isShare h.1
  rw [toDoc, withoutNulls, withoutNullsFields_cons _ f.ingredient.not_isNull]
  simp [ofDoc, withoutNullsFields, isNull, withoutNulls, asRecord, field, fieldOr, Register.find?,
    hi, hshare]

theorem Meaning.ofDoc_withoutNulls {m : Meaning ℝ} (h : 0 < m.weight) :
    ofDoc m.toDoc.withoutNulls = .sound m := by
  have hpos : (0.0 : ℝ) < m.weight := by
    norm_num
    exact h
  have hweight : weightOfDoc (.num m.weight) = .sound m.weight :=
    require_sound (decide_eq_true hpos)
  have hentry : Entry.ofDoc (m.entry.toDoc : Doc ℝ).withoutNulls = .sound m.entry :=
    m.entry.ofDoc_toDoc
  have hthere : (m.entry.toDoc : Doc ℝ).isNull = false := rfl
  rw [toDoc, withoutNulls, withoutNullsFields_cons _ hthere]
  simp [ofDoc, withoutNullsFields, isNull, withoutNulls, asRecord, field, fieldOr, Register.find?,
    hentry, hweight]

theorem Language.ofDoc_withoutNulls (l : Language ℝ) : ofDoc l.toDoc.withoutNulls = .sound l := by
  simp [ofDoc, toDoc, withoutNulls, withoutNullsFields, isNull, asRecord, fieldOr, Register.find?,
    asScalar]

namespace Personality

/-- Counters are read back. -/
theorem counts_withoutNulls (r : Register Int) :
    asRegisterOf asInt (countsDoc r : Doc ℝ).withoutNulls = .sound r := by
  unfold countsDoc
  rw [withoutNulls, withoutNullsFields_map .int r fun _ _ => rfl]
  exact readEntries_map .int r fun _ _ => rfl

/-- Clouds are read back. -/
theorem cloud_withoutNulls {r : Register (List (Meaning ℝ))}
    (h : ∀ c ∈ r, ∀ m ∈ c.2, 0 < m.weight) :
    asRegisterOf (asListOf Meaning.ofDoc) (cloudDoc r).withoutNulls = .sound r := by
  let write (ms : List (Meaning ℝ)) : Doc ℝ := .list (ms.map Meaning.toDoc)
  unfold cloudDoc
  rw [withoutNulls, withoutNullsFields_map write r fun _ _ => rfl]
  exact readEntries_map (fun ms => (write ms).withoutNulls) r fun c hc =>
    asListOf_withoutNulls fun m hm => Meaning.ofDoc_withoutNulls (h c hc m hm)

theorem preferences_withoutNulls {fs : List (Preference ℝ)} (h : ∀ f ∈ fs, f.Storable) :
    asListOf (Preference.ofDoc (nestingLimit - 1))
      (.list (withoutNullsItems (fs.map Preference.toDoc))) = .sound fs :=
  asListOf_withoutNulls fun f hf => Preference.ofDoc_withoutNulls (h f hf)

/-- **What is storable is loaded as it was saved**, without what belongs to the moment. -/
theorem load_saved {p : Personality ℝ} (h : p.Storable) :
    load? (.document p.saved) = some p.settled := by
  have hshares := h.shares
  have hpreferences := h.preferences
  simp only [shares, List.forall_mem_cons] at hshares
  rw [List.forall_mem_append] at hpreferences
  obtain ⟨h₁, h₂, h₃, h₄, h₅, h₆, h₇, h₈, h₉, -⟩ := hshares
  have hshare : ∀ {x : ℝ}, IsShare x → asShare (.num x) = .sound x := checkShare_of_isShare
  have hhistory : asListOf (Sandwich.ofDoc nestingLimit)
      (.list (withoutNullsItems (p.history.map Sandwich.toDoc) : List (Doc ℝ))) =
        .sound p.history :=
    asListOf_withoutNulls fun s hs =>
      Sandwich.ofDoc_withoutNulls (h.history s hs).1 (h.history s hs).2
  have hsaved : p.saved.orEmpty = p.saved := rfl
  have hread : ofDoc p.saved = .sound p.settled := by
    have hlanguage := p.language.ofDoc_withoutNulls
    have hidle := counts_withoutNulls p.idleTurns
    have hpantry := counts_withoutNulls p.inventory
    have hcloud := cloud_withoutNulls h.weights
    have hallergies := preferences_withoutNulls hpreferences.1
    have hfavorites := preferences_withoutNulls hpreferences.2
    unfold saved toDoc
    rw [withoutNulls]
    iterate 16 rw [withoutNullsFields_cons _ rfl]
    simp only [withoutNullsFields, withoutNulls]
    simp [ofDoc, asRecord, fieldOr, Register.find?, hshare h₁, hshare h₂, hshare h₃, hshare h₄,
      hshare h₅, hshare h₆, hshare h₇, hshare h₈, hshare h₉, hallergies, hfavorites, hlanguage,
      hidle, hpantry, hhistory, hcloud, settled]
  rw [load?, hsaved, hread]
  rfl

theorem ofDoc_of_load {d : Doc ℝ} {p : Personality ℝ} (h : load? (.document d) = some p) :
    ofDoc d.orEmpty = .sound p :=
  eq_sound_of_toOption h

/-- **Just these** are loaded as they were saved. -/
theorem load_saved_iff {p : Personality ℝ} :
    load? (.document p.saved) = some p.settled ↔ p.Storable := by
  refine ⟨fun h => ?_, load_saved⟩
  have hsettled := admits_ofDoc _ _ (ofDoc_of_load h)
  exact ⟨hsettled.shares, hsettled.preferences, hsettled.history, hsettled.weights⟩

/-- A personality that is read from some document. -/
def Valid (p : Personality ℝ) : Prop := ∃ d : Doc ℝ, ofDoc d = .sound p

theorem Valid.storable {p : Personality ℝ} (h : p.Valid) : p.Storable := by
  obtain ⟨d, hd⟩ := h
  exact admits_ofDoc d p hd

/-- What can be saved is valid once it is settled. -/
theorem Storable.valid_settled {p : Personality ℝ} (h : p.Storable) : p.settled.Valid :=
  ⟨_, ofDoc_of_load (load_saved_iff.mpr h)⟩

end Personality

end DeliTalk
