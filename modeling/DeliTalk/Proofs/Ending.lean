import DeliTalk.Act

/-!
# How an act ends

What is known of an act from a state: one thing of its value and the state it leaves, another of
the fault it may end with and the state it leaves then. Acts are taken apart at their binds, so
what a long act does is put together from what its steps do.

* `Act.Ends`: what holds at the end of an act.
* `Act.ends_bind`, `Act.Ends.mono`: two acts in a row, and saying less.
* `Act.Returns`: what is known of the value of an act wherever it starts.
* `Act.Leaves`: what is known of the state an act leaves, however it ends.
-/

namespace DeliTalk.Act

variable {σ τ α β : Type}

/-! ## 1. Running the basic acts -/

@[simp] theorem perform_always (f : σ → α × σ) (s : σ) :
    perform (always f) s = (.ok (f s).1, (f s).2) := rfl

@[simp] theorem perform_ofExcept (x : Except Fault α) (s : σ) :
    perform (ofExcept x : Act σ α) s = (x, s) := rfl

@[simp] theorem perform_map (f : α → β) (x : Act σ α) (s : σ) :
    perform (f <$> x) s = ((perform x s).1.map f, (perform x s).2) := by
  show perform (x >>= fun a => pure (f a)) s = _
  rw [perform_bind]
  generalize perform x s = r
  obtain ⟨r, t⟩ := r
  cases r <;> rfl

@[simp] theorem perform_get (s : σ) : perform (get : Act σ σ) s = (.ok s, s) := rfl

@[simp] theorem perform_modify (f : σ → σ) (s : σ) :
    perform (modify f : Act σ PUnit) s = (.ok ⟨⟩, f s) := rfl

@[simp] theorem perform_on (part : σ → τ) (update : τ → σ → σ) (x : Act τ α) (s : σ) :
    perform (on part update x) s =
      ((perform x (part s)).1, update (perform x (part s)).2 s) := rfl

@[simp] theorem perform_attempt (x : Act σ α) (s : σ) :
    perform (attempt x) s = (.ok (perform x s).1, (perform x s).2) := rfl

/-! ## 2. What holds at the end -/

/-- What holds at the end of an act: `post` of the value and the state it leaves, or `flaw` of
the fault and the state it leaves. -/
def Ends (x : Act σ α) (s : σ) (post : α → σ → Prop) (flaw : Fault → σ → Prop) : Prop :=
  match perform x s with
  | (.ok a, t) => post a t
  | (.error e, t) => flaw e t

/-- No fault at all. -/
def never : Fault → σ → Prop := fun _ _ => False

variable {s : σ} {post : α → σ → Prop} {flaw : Fault → σ → Prop}

theorem ends_of_perform {x : Act σ α} {a : α} {t : σ} (h : perform x s = (.ok a, t))
    (hp : post a t) : Ends x s post flaw := by
  unfold Ends
  rw [h]
  exact hp

theorem ends_of_fault {x : Act σ α} {e : Fault} {t : σ} (h : perform x s = (.error e, t))
    (hf : flaw e t) : Ends x s post flaw := by
  unfold Ends
  rw [h]
  exact hf

/-- An act that cannot fail leaves a value and a state. -/
theorem Ends.exists {x : Act σ α} (h : Ends x s post never) :
    ∃ a t, perform x s = (.ok a, t) ∧ post a t := by
  unfold Ends at h
  generalize perform x s = r at h
  obtain ⟨r, t⟩ := r
  cases r with
  | error e => exact h.elim
  | ok a => exact ⟨a, t, rfl, h⟩

theorem Ends.mono {x : Act σ α} {post' : α → σ → Prop} {flaw' : Fault → σ → Prop}
    (h : Ends x s post flaw) (hp : ∀ a t, post a t → post' a t)
    (hf : ∀ e t, flaw e t → flaw' e t) :
    Ends x s post' flaw' := by
  unfold Ends at h ⊢
  generalize perform x s = r at h
  obtain ⟨r, t⟩ := r
  cases r with
  | error e => exact hf e t h
  | ok a => exact hp a t h

theorem Ends.imp {x : Act σ α} {post' : α → σ → Prop} (h : Ends x s post flaw)
    (hp : ∀ a t, post a t → post' a t) : Ends x s post' flaw := h.mono hp fun _ _ => id

/-- What never fails has no flaw of any kind. -/
theorem Ends.sure {x : Act σ α} (h : Ends x s post never) : Ends x s post flaw :=
  h.mono (fun _ _ => id) fun _ _ => False.elim

/-- What holds at the end holds of what the act comes to. -/
theorem Ends.performs {x : Act σ α} (h : Ends x s post flaw) :
    Ends x s (fun a t => perform x s = (.ok a, t) ∧ post a t)
      fun e t => perform x s = (.error e, t) ∧ flaw e t := by
  unfold Ends at h ⊢
  generalize perform x s = r at h ⊢
  obtain ⟨r, t⟩ := r
  cases r <;> exact ⟨rfl, h⟩

/-- Two things that hold at the end hold together. -/
theorem Ends.and {x : Act σ α} {post' : α → σ → Prop} {flaw' : Fault → σ → Prop}
    (h : Ends x s post flaw) (h' : Ends x s post' flaw') :
    Ends x s (fun a t => post a t ∧ post' a t) fun e t => flaw e t ∧ flaw' e t := by
  unfold Ends at h h' ⊢
  generalize perform x s = r at h h'
  obtain ⟨r, t⟩ := r
  cases r <;> exact ⟨h, h'⟩

/-- **Two acts in a row**: the second one starts where the first one ended. -/
theorem ends_bind {x : Act σ α} {f : α → Act σ β} {post : β → σ → Prop} :
    Ends (x >>= f) s post flaw ↔ Ends x s (fun a t => Ends (f a) t post flaw) flaw := by
  unfold Ends
  rw [perform_bind]
  generalize perform x s = r
  obtain ⟨r, t⟩ := r
  cases r <;> exact Iff.rfl

@[simp] theorem ends_pure {a : α} : Ends (pure a : Act σ α) s post flaw ↔ post a s := Iff.rfl

@[simp] theorem ends_always {f : σ → α × σ} :
    Ends (always f) s post flaw ↔ post (f s).1 (f s).2 := Iff.rfl

@[simp] theorem ends_get {post : σ → σ → Prop} :
    Ends (get : Act σ σ) s post flaw ↔ post s s := Iff.rfl

@[simp] theorem ends_modify {f : σ → σ} {post : PUnit → σ → Prop} :
    Ends (modify f : Act σ PUnit) s post flaw ↔ post ⟨⟩ (f s) := Iff.rfl

@[simp] theorem ends_ok {a : α} : Ends (ofExcept (.ok a) : Act σ α) s post flaw ↔ post a s :=
  Iff.rfl

@[simp] theorem ends_fault {e : Fault} : Ends (fault e : Act σ α) s post flaw ↔ flaw e s :=
  Iff.rfl

/-- The outcome of an act as a value. -/
theorem ends_attempt {x : Act σ α} {post : Except Fault α → σ → Prop} :
    Ends (attempt x) s post flaw ↔
      Ends x s (fun a t => post (.ok a) t) (fun e t => post (.error e) t) := by
  unfold Ends
  rw [perform_attempt]
  generalize perform x s = r
  obtain ⟨r, t⟩ := r
  cases r <;> exact Iff.rfl

/-- An act on a part of a state, seen from the whole. -/
@[simp] theorem ends_on {part : σ → τ} {update : τ → σ → σ} {x : Act τ α} :
    Ends (on part update x) s post flaw ↔
      Ends x (part s) (fun a t => post a (update t s)) (fun e t => flaw e (update t s)) := by
  unfold Ends
  rw [perform_on]
  generalize perform x (part s) = r
  obtain ⟨r, t⟩ := r
  cases r <;> exact Iff.rfl

/-! ## 3. What an act returns -/

/-- What is known of the value of an act, wherever it starts, if it comes to one at all. -/
def Returns (x : Act σ α) (post : α → Prop) : Prop :=
  ∀ s, Ends x s (fun a _ => post a) fun _ _ => True

theorem Returns.of_perform {x : Act σ α} {post : α → Prop} {a : α} {t : σ} (h : Returns x post)
    (hx : perform x s = (.ok a, t)) : post a := by
  have hends := h s
  unfold Ends at hends
  rw [hx] at hends
  exact hends

theorem Returns.imp {x : Act σ α} {post post' : α → Prop} (h : Returns x post)
    (hp : ∀ a, post a → post' a) : Returns x post' := fun s => (h s).imp fun a _ => hp a

/-- Two things that are known of a value are known together. -/
theorem Returns.and {x : Act σ α} {post post' : α → Prop} (h : Returns x post)
    (h' : Returns x post') : Returns x fun a => post a ∧ post' a := fun s =>
  ((h s).and (h' s)).mono (fun _ _ => id) fun _ _ _ => True.intro

theorem returns_pure {a : α} {post : α → Prop} (h : post a) :
    Returns (pure a : Act σ α) post := fun _ => h

theorem returns_ofExcept {r : Except Fault α} {post : α → Prop} (h : ∀ a, r = .ok a → post a) :
    Returns (ofExcept r : Act σ α) post := by
  intro s
  cases r with
  | error e => exact True.intro
  | ok a => exact h a rfl

/-- Nothing needs to be known of a value. -/
theorem returns_any (x : Act σ α) : Returns x fun _ => True := by
  intro s
  unfold Ends
  generalize perform x s = r
  obtain ⟨r, t⟩ := r
  cases r <;> exact True.intro

theorem returns_bind {x : Act σ α} {f : α → Act σ β} {post : α → Prop} {post' : β → Prop}
    (hx : Returns x post) (hf : ∀ a, post a → Returns (f a) post') : Returns (x >>= f) post' :=
  fun s => ends_bind.mpr ((hx s).imp fun a t ha => hf a ha t)

/-- After an act whose value does not matter. -/
theorem returns_after {x : Act σ α} {f : α → Act σ β} {post : β → Prop}
    (hf : ∀ a, Returns (f a) post) : Returns (x >>= f) post :=
  returns_bind (returns_any x) fun a _ => hf a

/-- An act on a part of a state. -/
theorem returns_on {part : σ → τ} {update : τ → σ → σ} {x : Act τ α} {post : α → Prop}
    (h : Returns x post) : Returns (on part update x) post := fun s => ends_on.mpr (h (part s))

/-- An outcome as a value. -/
theorem returns_attempt {x : Act σ α} {post : α → Prop} (h : Returns x post) :
    Returns (attempt x) fun r => ∀ a, r = .ok a → post a := by
  intro s
  rw [ends_attempt]
  refine (h s).mono (fun a _ ha b hb => ?_) fun e _ _ a ha => ?_
  · cases hb
    exact ha
  · cases ha

/-- After one of two acts of whose values the same is known. -/
theorem returns_branch {c : Prop} [Decidable c] {x y : Act σ α} {f : α → Act σ β} {post : α → Prop}
    {post' : β → Prop} (hx : c → Returns x post) (hy : ¬ c → Returns y post)
    (hf : ∀ a, post a → Returns (f a) post') :
    Returns (if c then x >>= f else y >>= f) post' := by
  split
  · exact returns_bind (hx ‹_›) hf
  · exact returns_bind (hy ‹_›) hf

/-! ## 4. What an act leaves -/

/-- What is known of the state an act leaves, whether it comes to a value or not. -/
def Leaves (x : Act σ α) (s : σ) (p : σ → Prop) : Prop :=
  Ends x s (fun _ t => p t) fun _ t => p t

section

variable {p : σ → Prop}

theorem leaves_pure {a : α} (h : p s) : Leaves (pure a : Act σ α) s p := h

theorem leaves_bind {x : Act σ α} {f : α → Act σ β} (hx : Leaves x s p)
    (hf : ∀ a t, p t → Leaves (f a) t p) : Leaves (x >>= f) s p := ends_bind.mpr (hx.imp hf)

/-- An act on a part of a state leaves what is true of the others. -/
theorem leaves_on {part : σ → τ} {update : τ → σ → σ} (x : Act τ α)
    (h : ∀ t, p (update t s)) : Leaves (on part update x) s p :=
  ends_on.mpr ((returns_any x (part s)).mono (fun _ t _ => h t) fun _ t _ => h t)

end

end DeliTalk.Act
