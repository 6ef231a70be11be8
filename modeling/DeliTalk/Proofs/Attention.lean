import DeliTalk.Proofs.Understanding

/-!
# What any machine makes of any text

Whatever language a machine speaks, and whether it looks words up or guesses what they mean: a text
costs it draws and brings words it has not heard before into its clouds, and it changes nothing
else. What it understands ends nothing, or is a goodbye.

* `Mind.Attends`: a machine that heard something.
* `Grammar.ends_tryAgain`: any number of attempts.
* `Agent.ends_attend`: any text.
-/

namespace DeliTalk

open Act

variable {R : Type} [Scalar R]

/-- An operation with no goodbye in it, unless it is one. -/
def Operation.EndsAlone (x : Operation) : Prop := x ≠ .finish → x.Endless

/-! ## 1. Machines that heard something -/

/-- A machine some draws later, with any clouds. -/
def Mind.Attends (m m' : Mind R) : Prop :=
  ∃ cloud c, m.chance.Drawn c ∧ m' = ⟨{ m.personality with cloud := cloud }, c⟩

namespace Mind

variable {m m' m'' : Mind R}

theorem Attends.refl (m : Mind R) : m.Attends m := ⟨m.personality.cloud, m.chance, .refl _, rfl⟩

theorem Attends.trans (h : m.Attends m') (h' : m'.Attends m'') : m.Attends m'' := by
  obtain ⟨cloud, c, hc, rfl⟩ := h
  obtain ⟨cloud', c', hc', rfl⟩ := h'
  exact ⟨cloud', c', hc.trans hc', rfl⟩

theorem Later.attends (h : m.Later m') : m.Attends m' := by
  obtain ⟨c, hc, rfl⟩ := h
  exact ⟨m.personality.cloud, c, hc, rfl⟩

end Mind

/-! ## 2. Senses -/

/-- A weighted choice takes a draw at most, whatever the weights. -/
theorem leaves_pickWeighted {α : Type} (weight : α → R) (xs : List α) (c : Chance R) :
    Leaves (pickWeighted weight xs) c c.Drawn := by
  have hrefl := Chance.Drawn.refl c
  unfold pickWeighted
  simp only
  split
  · exact hrefl
  · split
    · exact hrefl
    · split
      · exact hrefl
      · unfold Leaves drawOne
        rw [ends_bind, ends_always]
        split
        · exact hrefl.draw
        · exact hrefl.draw

namespace Mind

theorem leaves_sampleSense (word : String) (entries : List Entry) (m : Mind R) :
    Leaves (sampleSense word entries) m m.Attends := by
  have hseeded : ∃ cloud, (m.personality.seeded word entries).2 =
      { m.personality with cloud := cloud } := by
    unfold Personality.seeded
    split
    · exact ⟨m.personality.cloud, rfl⟩
    · exact ⟨_, rfl⟩
  obtain ⟨cloud, hcloud⟩ := hseeded
  have hpick : ∀ {c : Chance R}, m.chance.Drawn c →
      m.Attends ⟨(m.personality.seeded word entries).2, c⟩ := by
    intro c hc
    rw [hcloud]
    exact ⟨cloud, c, hc, rfl⟩
  unfold sampleSense senses Leaves lucky
  rw [ends_bind, ends_always, ends_bind, ends_on]
  exact (leaves_pickWeighted _ _ m.chance).mono (fun _ c hc => hpick hc) fun _ c hc => hpick hc

end Mind

namespace Grammar

theorem leaves_imagineSenses (entries : List Entry) : ∀ (ws : List Word) (m : Mind R),
    Leaves (imagineSenses entries ws) m m.Attends
  | [], m => Mind.Attends.refl m
  | w :: rest, m => by
    unfold imagineSenses
    refine leaves_bind (Mind.leaves_sampleSense w.text entries m) fun entry m₁ h₁ => ?_
    refine leaves_bind ?_ fun _ _ h₂ => h₂
    exact (leaves_imagineSenses entries rest m₁).mono (fun _ _ => h₁.trans) fun _ _ => h₁.trans

/-! ## 3. Attempts -/

variable (g : Grammar) (probabilistic : Bool)

/-- What was read as a sentence, some draws later. -/
theorem ends_tryRead (ts : List Tagged) {m m₁ : Mind R} (h : m.Attends m₁) :
    Ends (do
      match ← (g.sentence ts).attempt with
      | .ok understood => return understood.map fun u => (ts, u)
      | .error e => if isPassing e then return none else Act.fault e) m₁
      (fun r m' => (∀ p ∈ r, p.2.1.EndsAlone) ∧ m.Attends m') (fun _ m' => m.Attends m') := by
  rw [ends_bind, ends_attempt]
  refine (g.ends_sentence ts m₁).mono (fun u m₂ hu => ?_) fun e m₂ he => ?_
  · refine ⟨?_, h.trans hu.2.attends⟩
    intro p hp hother
    obtain ⟨v, hv, rfl⟩ := Option.mem_map.mp hp
    rcases hu.1 v hv with hendless | ⟨hfinish, -⟩
    · exact hendless
    · exact absurd hfinish hother
  · have h₂ := h.trans he.2.attends
    simp only
    split
    · exact ⟨by simp, h₂⟩
    · exact h₂

/-- **One attempt**, whether words are looked up or guessed. -/
theorem ends_tryOnce (phrase : List Word) (m : Mind R) :
    Ends (g.tryOnce probabilistic phrase) m
      (fun r m' => (∀ p ∈ r, p.2.1.EndsAlone) ∧ m.Attends m') (fun _ m' => m.Attends m') := by
  unfold tryOnce
  simp only
  split
  · rw [ends_bind]
    exact (leaves_imagineSenses _ phrase m).imp fun ts m₁ h₁ => g.ends_tryRead ts h₁
  · rw [ends_bind, ends_pure]
    exact g.ends_tryRead _ (.refl m)

/-- **Any number of attempts.** -/
theorem ends_tryAgain (phrase : List Word) : ∀ (remaining attempt : Nat) (m : Mind R),
    Ends (g.tryAgain probabilistic phrase attempt remaining) m
      (fun r m' => (∀ reading ∈ r, reading.operation.EndsAlone) ∧ m.Attends m')
      (fun _ m' => m.Attends m')
  | 0, _, m => ⟨by simp, Mind.Attends.refl m⟩
  | remaining + 1, attempt, m => by
    unfold tryAgain
    rw [ends_bind]
    refine (g.ends_tryOnce probabilistic phrase m).imp fun r m₁ hr => ?_
    cases r with
    | some p =>
      refine ⟨?_, hr.2⟩
      intro reading hreading
      cases hreading
      exact hr.1 p rfl
    | none =>
      exact (ends_tryAgain phrase remaining (attempt + 1) m₁).mono
        (fun r m₂ h₂ => ⟨h₂.1, hr.2.trans h₂.2⟩) fun _ m₂ h₂ => hr.2.trans h₂

theorem ends_parse_any (text : String) (m : Mind R) :
    Ends (g.parse probabilistic text) m
      (fun r m' => r.operation.EndsAlone ∧ m.Attends m') (fun _ m' => m.Attends m') := by
  unfold parse
  split
  · exact Mind.Attends.refl m
  · simp only
    rw [ends_bind]
    refine (g.ends_tryAgain probabilistic _ _ 1 m).imp fun r m₁ hr => ?_
    cases r with
    | some reading => exact ⟨hr.1 reading rfl, hr.2⟩
    | none => exact hr.2

end Grammar

/-! ## 4. Texts -/

/-- **Any text** is understood, or not, or cannot be read. What is understood ends nothing or is a
goodbye, and hearing it changed the clouds of words at most. -/
theorem Agent.ends_attend (a : Agent R) (text : Option String) (m : Mind R) :
    Ends (a.understand text) m
      (fun r m' => (∀ reading ∈ r, reading.operation.EndsAlone) ∧ m.Attends m')
      (fun _ m' => m.Attends m') := by
  have hnothing : (∀ reading ∈ (none : Option (Reading R)), reading.operation.EndsAlone) ∧
      m.Attends m := ⟨by simp, .refl m⟩
  unfold understand
  split
  · exact hnothing
  · exact hnothing
  · rw [ends_bind, ends_attempt]
    refine (a.grammar.ends_parse_any _ _ m).mono (fun r m' hr => ?_) fun e m' he => ?_
    · refine ⟨?_, hr.2⟩
      intro reading hreading
      cases hreading
      exact hr.1
    · split
      · rename_i heq
        cases heq
      · exact ⟨by simp, he⟩
      · exact he

end DeliTalk
