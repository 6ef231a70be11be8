import DeliTalk.Proofs.Attention

/-!
# What listening leaves behind

A machine that draws the senses of words keeps a cloud for each of them: a word it has not heard
before gets every entry there is, all alike. However a text is read, and whether anything was
understood of it or not, nothing else is left behind.

* `Personality.Overhears`: a machine that heard some words.
* `Personality.Knows`: a sense in the cloud of a word.
* `Grammar.ends_parse_overhears`: any text, however it ends, and the senses the words of a reading were
  read with.
* `Personality.Versed`: clouds of all entries.
-/

namespace DeliTalk

open Act

/-! ## 1. Names that are new to a register -/

namespace Register

variable {V : Type}

/-- A new name is written at the end. -/
theorem put_new {name : String} (value : V) : ∀ {r : Register V}, find? name r = none →
    put name value r = r ++ [(name, value)]
  | [], _ => rfl
  | (key, old) :: rest, h => by
    unfold find? at h
    unfold put
    split at h
    · cases h
    · rename_i hkey
      rw [if_neg hkey, put_new value h]
      rfl

theorem find?_append (name : String) (r' : Register V) : ∀ r : Register V,
    find? name (r ++ r') = (find? name r).or (find? name r')
  | [] => rfl
  | (key, old) :: rest => by
    have ih := find?_append name r' rest
    by_cases h : key = name
    · simp only [List.cons_append, find?, if_pos h, Option.some_or]
    · simp only [List.cons_append, find?, if_neg h, ih]

/-- What is not found is no name of the register. -/
theorem notMem_keys {name : String} : ∀ {r : Register V}, find? name r = none → name ∉ keys r
  | [], _ => List.not_mem_nil
  | (key, old) :: rest, h => by
    unfold find? at h
    split at h
    · cases h
    · rename_i hkey
      rw [keys, List.map_cons, List.mem_cons, not_or]
      exact ⟨Ne.symm hkey, notMem_keys h⟩

/-- Names that all stand for the same. -/
theorem find?_map_same (name : String) (value : V) : ∀ names : List String,
    find? name (names.map fun n => (n, value)) = if name ∈ names then some value else none
  | [] => rfl
  | n :: rest => by
    rw [List.map_cons]
    unfold find?
    by_cases h : n = name
    · rw [if_pos h, if_pos (h ▸ List.mem_cons_self)]
    · rw [if_neg h, find?_map_same name value rest]
      simp only [List.mem_cons, Ne.symm h, false_or]

end Register

/-! ## 2. Words that were heard -/

namespace Personality

variable {R : Type} [Scalar R] {entries : List Entry} {ws ws' : List String}
  {p p' p'' : Personality R}

/-- A machine that heard some words: those it had not heard before have a cloud now, with every entry
in it and all alike, and nothing else is different. -/
def Overhears (entries : List Entry) (ws : List String) (p p' : Personality R) : Prop :=
  ∃ fresh : List String, fresh.Nodup ∧
    (∀ w ∈ fresh, w ∈ ws ∧ Register.find? w p.cloud = none) ∧
    p' = { p with cloud := p.cloud ++ fresh.map fun w => (w, evenCloud entries) }

/-- Whether a sense is in the cloud of a word. -/
def Knows (p : Personality R) (word : String) (entry : Entry) : Prop :=
  ∃ cloud, Register.find? word p.cloud = some cloud ∧ entry ∈ cloud.map (·.entry)

namespace Overhears

theorem refl (p : Personality R) : p.Overhears entries ws p := by
  refine ⟨[], List.nodup_nil, nofun, ?_⟩
  rw [List.map_nil, List.append_nil]

theorem mono (h : p.Overhears entries ws p') (hsub : ws ⊆ ws') : p.Overhears entries ws' p' := by
  obtain ⟨fresh, hnodup, hfresh, hp⟩ := h
  exact ⟨fresh, hnodup, fun w hw => ⟨hsub (hfresh w hw).1, (hfresh w hw).2⟩, hp⟩

/-- A cloud is as it was, or it is new and even. -/
theorem find? (h : p.Overhears entries ws p') (word : String) :
    Register.find? word p'.cloud = Register.find? word p.cloud ∨
      Register.find? word p.cloud = none ∧ word ∈ ws ∧
        Register.find? word p'.cloud = some (evenCloud entries) := by
  obtain ⟨fresh, -, hfresh, rfl⟩ := h
  simp only [Register.find?_append, Register.find?_map_same]
  split
  · rename_i hword
    obtain ⟨hws, hnone⟩ := hfresh word hword
    exact Or.inr ⟨hnone, hws, by rw [hnone]; rfl⟩
  · exact Or.inl (Option.or_none)

/-- What was heard before stays as it was. -/
theorem keeps (h : p.Overhears entries ws p') {word : String} {cloud : List (Meaning R)}
    (hcloud : Register.find? word p.cloud = some cloud) :
    Register.find? word p'.cloud = some cloud := by
  rcases h.find? word with hsame | ⟨hnone, -⟩
  · exact hsame.trans hcloud
  · rw [hcloud] at hnone
    cases hnone

theorem knows (h : p.Overhears entries ws p') {word : String} {entry : Entry}
    (hknows : p.Knows word entry) : p'.Knows word entry := by
  obtain ⟨cloud, hcloud, hentry⟩ := hknows
  exact ⟨cloud, h.keeps hcloud, hentry⟩

/-- No word has two clouds if none had. -/
theorem nodup_keys (h : p.Overhears entries ws p') (hdistinct : (Register.keys p.cloud).Nodup) :
    (Register.keys p'.cloud).Nodup := by
  obtain ⟨fresh, hnodup, hfresh, rfl⟩ := h
  have hkeys : Register.keys (p.cloud ++ fresh.map fun w => (w, evenCloud entries)) =
      Register.keys p.cloud ++ fresh := by
    unfold Register.keys
    rw [List.map_append, List.map_map]
    exact congrArg (p.cloud.map (·.1) ++ ·) (List.map_id' fresh)
  rw [hkeys]
  exact hdistinct.append hnodup fun w hw hw' => Register.notMem_keys (hfresh w hw').2 hw

theorem trans (h : p.Overhears entries ws p') (h' : p'.Overhears entries ws p'') :
    p.Overhears entries ws p'' := by
  have hbefore : ∀ w, Register.find? w p'.cloud = none → Register.find? w p.cloud = none := by
    intro w hw
    rcases h.find? w with hsame | ⟨hnone, -⟩
    · exact hsame.symm.trans hw
    · exact hnone
  obtain ⟨fresh, hnodup, hfresh, rfl⟩ := h
  obtain ⟨later, hnodup', hlater, rfl⟩ := h'
  refine ⟨fresh ++ later, hnodup.append hnodup' ?_, fun w hw => ?_, ?_⟩
  · intro w hw hw'
    have hnone := (hlater w hw').2
    simp only [Register.find?_append, Register.find?_map_same, if_pos hw, (hfresh w hw).2] at hnone
    cases hnone
  · rcases List.mem_append.mp hw with hw | hw
    · exact hfresh w hw
    · exact ⟨(hlater w hw).1, hbefore w (hlater w hw).2⟩
  · rw [List.map_append, List.append_assoc]

end Overhears

/-- Hearing one word. -/
theorem overhears_seeded (p : Personality R) (word : String) (entries : List Entry) :
    p.Overhears entries [word] (p.seeded word entries).2 ∧
      Register.find? word (p.seeded word entries).2.cloud = some (p.seeded word entries).1 := by
  unfold seeded
  cases hcloud : Register.find? word p.cloud with
  | some cloud => exact ⟨.refl p, hcloud⟩
  | none =>
    refine ⟨⟨[word], List.nodup_singleton word, ?_, ?_⟩, Register.find?_put_self _ _ _⟩
    · intro w hw
      obtain rfl := List.mem_singleton.mp hw
      exact ⟨hw, hcloud⟩
    · simp only [Register.put_new _ hcloud, List.map_cons, List.map_nil]

end Personality

/-! ## 3. Senses for words -/

variable {R : Type} [Scalar R]

/-- A weighted choice is one of the values there are. -/
theorem returns_pickWeighted {α : Type} (weight : α → R) (xs : List α) :
    Returns (pickWeighted weight xs) (· ∈ xs) := by
  have hfault : ∀ e, Returns (Act.fault e : Luck R α) (· ∈ xs) := fun _ _ => True.intro
  unfold pickWeighted
  simp only
  split
  · exact hfault _
  · split
    · exact hfault _
    · split
      · exact hfault _
      · refine returns_after fun x => ?_
        split
        · rename_i value hvalue
          exact returns_pure (List.mem_of_getElem? hvalue)
        · exact hfault _

/-- The words of a text, if it has any. -/
def Phrase.wordsOf (text : String) : List String :=
  match Phrase.read text with
  | .ok phrase => phrase.map Word.text
  | .error _ => []

/-- Whether words were read with senses in their clouds. -/
def Mind.ReadWith (m : Mind R) (ts : List Tagged) : Prop :=
  ∀ t ∈ ts, ∃ e, t.entry = some e ∧ m.personality.Knows t.text e

/-- A sense of one word. -/
theorem Mind.ends_sampleSense (word : String) (entries : List Entry) (m : Mind R) :
    Ends (sampleSense word entries) m
      (fun e m' => m.personality.Overhears entries [word] m'.personality ∧
        m'.personality.Knows word e)
      fun _ m' => m.personality.Overhears entries [word] m'.personality := by
  obtain ⟨hears, hcloud⟩ := m.personality.overhears_seeded word entries
  unfold sampleSense senses lucky
  rw [ends_bind, ends_always, ends_bind, ends_on]
  refine (returns_pickWeighted Meaning.weight (m.personality.seeded word entries).1
    m.chance).mono (fun s c hs => ?_) fun _ _ _ => hears
  exact ⟨hears, _, hcloud, List.mem_map_of_mem hs⟩

namespace Grammar

/-- A sense for every word. -/
theorem ends_imagineSenses (entries : List Entry) : ∀ (ws : List Word) (m : Mind R),
    Ends (imagineSenses entries ws) m
      (fun ts m' => m.personality.Overhears entries (ws.map Word.text) m'.personality ∧
        ts.map (·.word) = ws ∧ m'.ReadWith ts)
      fun _ m' => m.personality.Overhears entries (ws.map Word.text) m'.personality
  | [], m => ⟨.refl _, rfl, nofun⟩
  | w :: rest, m => by
    have hfirst : [w.text] ⊆ (w :: rest).map Word.text := by simp
    have hrest : rest.map Word.text ⊆ (w :: rest).map Word.text := List.subset_cons_self _ _
    unfold imagineSenses
    rw [ends_bind]
    refine (Mind.ends_sampleSense w.text entries m).mono (fun e m₁ h₁ => ?_) fun _ m₁ h₁ =>
      h₁.mono hfirst
    obtain ⟨hears, hknows⟩ := h₁
    rw [ends_bind]
    refine (ends_imagineSenses entries rest m₁).mono (fun ts m₂ h₂ => ?_) fun _ m₂ h₂ =>
      (hears.mono hfirst).trans (h₂.mono hrest)
    obtain ⟨hears', hwords, hread⟩ := h₂
    refine ⟨(hears.mono hfirst).trans (hears'.mono hrest), congrArg (w :: ·) hwords, ?_⟩
    intro t ht
    rcases List.mem_cons.mp ht with rfl | ht
    · exact ⟨e, rfl, hears'.knows hknows⟩
    · exact hread t ht

/-! ## 4. Texts -/

variable (g : Grammar)

/-- Reading a sentence leaves a machine as it was, but for some draws. -/
theorem ends_tryTagged (ts : List Tagged) (m : Mind R) :
    Ends (do
      match ← (g.sentence ts).attempt with
      | .ok understood => return understood.map fun u => (ts, u)
      | .error e => if isPassing e then return none else Act.fault e) m
      (fun r m' => (∀ p ∈ r, p.1 = ts) ∧ m.Later m') (fun _ m' => m.Later m') := by
  rw [ends_bind, ends_attempt]
  refine (g.ends_sentence ts m).mono (fun u m₁ hu => ⟨fun p hp => ?_, hu.2⟩) fun e m₁ he => ?_
  · obtain ⟨v, -, rfl⟩ := Option.mem_map.mp hp
    rfl
  · simp only
    split
    · exact ⟨nofun, he.2⟩
    · exact he.2

variable {g} {probabilistic : Bool} {phrase : List Word}

/-- One attempt. -/
theorem ends_tryOnce_overhears (m : Mind R) :
    Ends (g.tryOnce probabilistic phrase) m
      (fun r m' => m.personality.Overhears g.lexicon.uniqueEntries (phrase.map Word.text)
          m'.personality ∧
        (probabilistic = true → ∀ p ∈ r, p.1.map (·.word) = phrase ∧ m'.ReadWith p.1))
      fun _ m' => m.personality.Overhears g.lexicon.uniqueEntries (phrase.map Word.text)
        m'.personality := by
  unfold tryOnce
  simp only
  split
  · rename_i hdraws
    rw [ends_bind]
    refine (ends_imagineSenses g.lexicon.uniqueEntries phrase m).imp fun ts m₁ h₁ => ?_
    obtain ⟨hears, hwords, hread⟩ := h₁
    refine (g.ends_tryTagged ts m₁).mono (fun r m₂ h₂ => ?_) fun _ m₂ h₂ => ?_
    · obtain ⟨hts, c, -, rfl⟩ := h₂
      refine ⟨hears, fun _ p hp => ?_⟩
      rw [hts p hp]
      exact ⟨hwords, hread⟩
    · obtain ⟨c, -, rfl⟩ := h₂
      exact hears
  · rename_i hlooks
    rw [ends_bind, ends_pure]
    refine (g.ends_tryTagged (g.annotate phrase) m).mono (fun r m₁ h₁ => ?_) fun _ m₁ h₁ => ?_
    · obtain ⟨-, c, -, rfl⟩ := h₁
      exact ⟨.refl _, fun hdraws => absurd hdraws hlooks⟩
    · obtain ⟨c, -, rfl⟩ := h₁
      exact .refl _

/-- Any number of attempts. -/
theorem ends_tryAgain_overhears : ∀ (remaining attempt : Nat) (m : Mind R),
    Ends (g.tryAgain probabilistic phrase attempt remaining) m
      (fun r m' => m.personality.Overhears g.lexicon.uniqueEntries (phrase.map Word.text)
          m'.personality ∧
        (probabilistic = true → ∀ reading ∈ r, ∃ ts, ts.map (·.word) = phrase ∧ m'.ReadWith ts ∧
          reading.lex = lexed ts))
      fun _ m' => m.personality.Overhears g.lexicon.uniqueEntries (phrase.map Word.text)
        m'.personality
  | 0, _, m => ⟨.refl _, fun _ => nofun⟩
  | remaining + 1, attempt, m => by
    unfold tryAgain
    rw [ends_bind]
    refine (ends_tryOnce_overhears m).imp fun r m₁ h₁ => ?_
    obtain ⟨hears, hread⟩ := h₁
    cases r with
    | some p =>
      refine ⟨hears, fun hdraws reading hreading => ?_⟩
      cases hreading
      exact ⟨p.1, (hread hdraws p rfl).1, (hread hdraws p rfl).2, rfl⟩
    | none =>
      exact (ends_tryAgain_overhears remaining (attempt + 1) m₁).mono
        (fun r m₂ h₂ => ⟨hears.trans h₂.1, h₂.2⟩) fun _ m₂ h₂ => hears.trans h₂

/-- **Listening to a text** leaves nothing behind but clouds for words that were not heard before,
even ones. -/
theorem ends_parse_overhears (text : String) (m : Mind R) :
    Ends (g.parse probabilistic text) m
      (fun r m' => m.personality.Overhears g.lexicon.uniqueEntries (Phrase.wordsOf text)
          m'.personality ∧
        (probabilistic = true → r.lex.map (·.word) = Phrase.wordsOf text ∧
          ∀ w ∈ r.lex, ∃ e, w.entry = some e ∧ m'.personality.Knows w.word e))
      fun _ m' => m.personality.Overhears g.lexicon.uniqueEntries (Phrase.wordsOf text)
        m'.personality := by
  unfold parse Phrase.wordsOf
  cases hphrase : Phrase.read text with
  | error e => exact .refl _
  | ok phrase =>
    simp only
    rw [ends_bind]
    refine (ends_tryAgain_overhears _ 1 m).imp fun r m₁ h₁ => ?_
    obtain ⟨hears, hread⟩ := h₁
    cases r with
    | none => exact hears
    | some reading =>
      refine ⟨hears, fun hdraws => ?_⟩
      obtain ⟨ts, hwords, hts, hlex⟩ := hread hdraws reading rfl
      refine ⟨?_, fun w hw => ?_⟩
      · rw [hlex, ← hwords, lexed, List.map_map, List.map_map]
        rfl
      · rw [hlex] at hw
        obtain ⟨t, ht, rfl⟩ := List.mem_map.mp hw
        exact hts t ht

end Grammar

/-! ## 5. Clouds of all entries -/

namespace Lexicon

variable (lex : Lexicon)

/-- The entries there are, each once. -/
theorem uniqueEntries_spec : lex.uniqueEntries.Nodup ∧
    ∀ e, e ∈ lex.uniqueEntries ↔ ∃ p ∈ lex.entries, p.2 = e := by
  have key : ∀ (es : List (String × Entry)) (seen : List Entry), seen.Nodup →
      (es.foldl (fun seen p => if p.2 ∈ seen then seen else seen ++ [p.2]) seen).Nodup ∧
        ∀ e, e ∈ es.foldl (fun seen p => if p.2 ∈ seen then seen else seen ++ [p.2]) seen ↔
          e ∈ seen ∨ ∃ p ∈ es, p.2 = e := by
    intro es
    induction es with
    | nil => exact fun seen h => ⟨h, fun e => by simp⟩
    | cons p rest ih =>
      intro seen h
      rw [List.foldl_cons]
      split
      · rename_i hseen
        refine ⟨(ih seen h).1, fun e => ?_⟩
        rw [(ih seen h).2 e, List.exists_mem_cons_iff]
        constructor
        · exact Or.imp_right Or.inr
        · rintro (he | rfl | he)
          · exact Or.inl he
          · exact Or.inl hseen
          · exact Or.inr he
      · rename_i hnew
        have hnodup : (seen ++ [p.2]).Nodup :=
          h.append (List.nodup_singleton _) fun e he hlast =>
            hnew (List.mem_singleton.mp hlast ▸ he)
        refine ⟨(ih _ hnodup).1, fun e => ?_⟩
        rw [(ih _ hnodup).2 e, List.exists_mem_cons_iff, List.mem_append, List.mem_singleton,
          or_assoc, eq_comm]
  refine ⟨(key lex.entries [] List.nodup_nil).1, fun e => ?_⟩
  exact ((key lex.entries [] List.nodup_nil).2 e).trans (or_iff_right List.not_mem_nil)

theorem nodup_uniqueEntries : lex.uniqueEntries.Nodup := lex.uniqueEntries_spec.1

theorem mem_uniqueEntries {e : Entry} :
    e ∈ lex.uniqueEntries ↔ ∃ p ∈ lex.entries, p.2 = e := lex.uniqueEntries_spec.2 e

end Lexicon

/-- Whether the clouds of a machine hold the entries there are, in their order, each of them with a
positive weight. -/
def Personality.Versed (entries : List Entry) (p : Personality ℝ) : Prop :=
  ∀ word cloud, Register.find? word p.cloud = some cloud →
    cloud.map (·.entry) = entries ∧ ∀ s ∈ cloud, 0 < s.weight

namespace Personality

variable {entries : List Entry} {p p' : Personality ℝ}

theorem entry_evenCloud (entries : List Entry) :
    (evenCloud entries : List (Meaning R)).map (·.entry) = entries := by
  rw [evenCloud, List.map_map]
  exact List.map_id' entries

/-- Even clouds hold the entries there are. -/
theorem versed_fresh (h : p.cloud = []) : p.Versed entries := by
  intro word cloud hcloud
  rw [h] at hcloud
  cases hcloud

theorem Versed.overhears {ws : List String} (h : p.Versed entries)
    (hears : p.Overhears entries ws p') : p'.Versed entries := by
  intro word cloud hcloud
  rcases hears.find? word with hsame | ⟨-, -, heven⟩
  · exact h word cloud (hsame.symm.trans hcloud)
  · rw [heven] at hcloud
    cases hcloud
    refine ⟨entry_evenCloud entries, fun s hs => ?_⟩
    obtain ⟨e, -, rfl⟩ := List.mem_map.mp hs
    show (0 : ℝ) < 1.0
    norm_num

/-- A sense in a cloud is an entry. -/
theorem Versed.mem (h : p.Versed entries) {word : String} {entry : Entry}
    (hknows : p.Knows word entry) : entry ∈ entries := by
  obtain ⟨cloud, hcloud, hentry⟩ := hknows
  rwa [(h word cloud hcloud).1] at hentry

end Personality

end DeliTalk
