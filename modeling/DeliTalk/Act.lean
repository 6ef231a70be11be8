import DeliTalk.Fault

/-!
# Acts: steps that may fail and keep what they did

An act reads and changes a state and ends with a value or a fault. What it changed before a
fault stays changed. An act on a part of a state is an act on the whole (`Act.on`).
-/

namespace DeliTalk

/-- A step on a state: a value or a fault, and the state afterwards. -/
abbrev Act (σ α : Type) := ExceptT Fault (StateM σ) α

namespace Act

variable {σ τ α β : Type}

/-- Runs an act. -/
def perform (x : Act σ α) (s : σ) : Except Fault α × σ := x.run.run s

/-- An act given by what it does to a state. -/
def ofStep (f : σ → Except Fault α × σ) : Act σ α := ExceptT.mk (fun s => f s)

/-- An act that never fails. -/
def always (f : σ → α × σ) : Act σ α := ofStep fun s => let (a, s) := f s; (.ok a, s)

/-- A value that may already be a fault. -/
def ofExcept (x : Except Fault α) : Act σ α := ofStep fun s => (x, s)

/-- A value that may have flaws, which are a fault. -/
def ofCheck (x : Check α) : Act σ α := ofExcept x.orFault

/-- Ends with a fault. -/
def fault (f : Fault) : Act σ α := ofExcept (.error f)

/-- An act on a part of a state. -/
def on (part : σ → τ) (update : τ → σ → σ) (x : Act τ α) : Act σ α :=
  ofStep fun s => let (r, t) := x.perform (part s); (r, update t s)

/-- The outcome of an act as a value; the act itself no longer fails. -/
def attempt (x : Act σ α) : Act σ (Except Fault α) :=
  ofStep fun s => let (r, s) := x.perform s; (.ok r, s)

@[simp] theorem perform_pure (a : α) (s : σ) : perform (pure a : Act σ α) s = (.ok a, s) := rfl

@[simp] theorem perform_ofStep (f : σ → Except Fault α × σ) (s : σ) :
    perform (ofStep f) s = f s := rfl

@[simp] theorem perform_fault (f : Fault) (s : σ) :
    perform (fault f : Act σ α) s = (.error f, s) := rfl

/-- Two acts in a row: the second one starts where the first one ended. -/
theorem perform_bind (x : Act σ α) (f : α → Act σ β) (s : σ) :
    perform (x >>= f) s =
      match perform x s with
      | (.ok a, t) => perform (f a) t
      | (.error e, t) => (.error e, t) := by
  unfold perform
  simp only [bind, ExceptT.bind, ExceptT.mk, ExceptT.run, StateT.run, StateT.bind, ExceptT.bindCont]
  generalize x s = r
  obtain ⟨r, t⟩ := r
  cases r <;> rfl

end Act

end DeliTalk
