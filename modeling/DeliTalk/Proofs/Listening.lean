import DeliTalk.Proofs.Attention
import DeliTalk.Proofs.Turns
import DeliTalk.Session.Listening

/-!
# A machine and whoever it talks to

What a machine does between its messages is its own; what comes in between them may be anything. So
what is known of a whole session is what every single message keeps, whatever it says. A session
ends with the machine, or when no frame comes any more, or with a fault in between.

* `Agent.ends_voice`: one message, in any language.
* `Agent.Took`, `Agent.Misses`: the frames a machine took, and why it takes no more of them.
* `ends_listen`: a whole session.
-/

namespace DeliTalk

open Act

namespace Agent

variable (a : Agent ℝ)

/-! ## 1. One message, in any language -/

/-- Whether a fault is one of the language: there are words in it that cannot be read. -/
def Stammers (e : Fault) : Prop :=
  (¬ ∃ t words, Lexicon.Sound t words ∧ a.lexicon = Lexicon.build t words) ∧
    (a.lexicon.largestNumber = .error e ∨ ∃ x, speak a.lexicon x = .error e)

variable {a}

theorem stammers_of_largestNumber {e : Fault} (he : a.lexicon.largestNumber = .error e) :
    a.Stammers e := by
  refine ⟨?_, Or.inl he⟩
  intro hsound
  obtain ⟨t, words, h, ha⟩ := hsound
  obtain ⟨n, hn⟩ := h.exists_largestNumber
  rw [ha, hn] at he
  cases he

theorem stammers_of_speak {x : Option Operation} {e : Fault}
    (he : speak a.lexicon x = .error e) : a.Stammers e := by
  refine ⟨?_, Or.inr ⟨x, he⟩⟩
  intro hsound
  obtain ⟨t, words, h, ha⟩ := hsound
  cases x with
  | none => cases he
  | some x =>
    obtain ⟨ts, hts, -⟩ := speak_spec h (g := a.grammar) ha x
    cases hts.symm.trans he

variable (a)

/-- A message that says an operation, if there are words for it, and perhaps shows a sandwich. -/
def Voices (x : Option Operation) (s : Option Sandwich) (m : Message) : Prop :=
  ∃ ts, speak a.lexicon x = .ok ts ∧ m = message ts s

theorem Voices.sandwich {a : Agent ℝ} {x : Option Operation} {s : Option Sandwich} {m : Message}
    (h : a.Voices x s m) : m.sandwich = s := by
  obtain ⟨ts, -, rfl⟩ := h
  rfl

/-- Whether a fault is that of a message that cannot be said or does not fit. -/
def Chokes (x : Option Operation) (s : Option Sandwich) (e : Fault) : Prop :=
  a.Stammers e ∨ ∃ m, a.Voices x s m ∧ a.Refuses m e

/-- **One message** is sent, or nothing is. -/
theorem ends_voice {speaker : Speaker} {turn : Nat} (x : Option Operation) (s : Option Sandwich)
    (seat : Seat ℝ) : Ends (a.say speaker turn x s) seat
      (fun _ seat' => seat'.table = seat.table ∧
        ∃ m, a.Voices x s m ∧ seat'.sent = seat.sent ++ [m])
      (fun e seat' => seat'.sent = seat.sent ∧ a.Chokes x s e) := by
  cases hs : speak a.lexicon x with
  | error e =>
    unfold say
    rw [hs]
    exact ⟨rfl, Or.inl (stammers_of_speak hs)⟩
  | ok ts =>
    refine (a.ends_say hs seat).mono (fun _ seat' h => ?_) fun e seat' he => ?_
    · exact ⟨h.1, _, ⟨ts, hs, rfl⟩, h.2.1⟩
    · exact ⟨he.1, Or.inr ⟨_, ⟨ts, hs, rfl⟩, he.2⟩⟩

/-! ## 2. Frames that come in -/

/-- Whether a machine took some of the frames, the messages in them, and which are left. -/
def Took (frames : List Bytes) (ms : List Message) (rest : List Bytes) : Prop :=
  ∃ taken, frames = taken ++ rest ∧ List.Forall₂ (fun f m => a.hear f = .ok m) taken ms

/-- Whether a fault is that of a machine that waits for a message: no frame comes any more, or there
is no message in the next one. -/
def Misses (rest : List Bytes) (e : Fault) : Prop :=
  rest = [] ∧ e = .line .timedOut ∨ ∃ frame later, rest = frame :: later ∧ a.hear frame = .error e

variable {a} {frames rest : List Bytes} {ms : List Message}

theorem took_nothing (frames : List Bytes) : a.Took frames [] frames := ⟨[], rfl, .nil⟩

theorem Took.cons (h : a.Took frames ms rest) {frame : Bytes} {m : Message}
    (hm : a.hear frame = .ok m) : a.Took (frame :: frames) (m :: ms) rest := by
  obtain ⟨taken, rfl, htaken⟩ := h
  exact ⟨frame :: taken, rfl, .cons hm htaken⟩

end Agent

/-! ## 3. A whole session -/

section

variable {σ β : Type}

/-- What holds after a message, whether the machine goes on or is done. -/
def Onward (waits : σ → Seat ℝ → Prop) (done : β → Seat ℝ → Prop) :
    Progress σ β → Seat ℝ → Prop
  | .await s, seat => waits s seat
  | .finished b, seat => done b seat

variable {a : Agent ℝ} {receive : σ → Message → Act (Seat ℝ) (Progress σ β)}
  {waits : List Message → σ → Seat ℝ → Prop} {done : List Message → β → Seat ℝ → Prop}
  {stuck : List Message → Fault → Seat ℝ → Prop}

/-- **One frame that is heard**: the session goes on with the frames after it, or is over. -/
theorem ends_listen_cons {frame : Bytes} {m : Message} (hhear : a.hear frame = .ok m)
    (rest : List Bytes) (s : σ) (seat : Seat ℝ) {post : β → Seat ℝ → Prop}
    {flaw : Fault → Seat ℝ → Prop} :
    Ends (listen a receive (frame :: rest) s) seat post flaw ↔
      Ends (receive s m) seat (fun p seat' => match p with
        | .await s' => Ends (listen a receive rest s') seat' post flaw
        | .finished b => post b seat') flaw := by
  rw [listen, ends_bind, hhear, ends_ok, ends_bind]
  refine ⟨fun h => h.mono ?_ fun _ _ he => he, fun h => h.mono ?_ fun _ _ he => he⟩ <;>
  · intro p seat' hp
    cases p <;> exact hp

/-- **A whole session**, when it is known what one message does: whatever messages came before, the
machine waits as it should, is done as it should, or is stuck. -/
theorem ends_listen (hstep : ∀ ms m s seat, waits ms s seat → Ends (receive s m) seat
      (Onward (waits (ms ++ [m])) (done (ms ++ [m]))) (stuck (ms ++ [m]))) :
    ∀ (frames : List Bytes) (ms : List Message) (s : σ) (seat : Seat ℝ), waits ms s seat →
    Ends (listen a receive frames s) seat
      (fun b seat' => ∃ more rest, a.Took frames more rest ∧ done (ms ++ more) b seat')
      (fun e seat' => ∃ more rest, a.Took frames more rest ∧
        ((∃ s', waits (ms ++ more) s' seat' ∧ a.Misses rest e) ∨ stuck (ms ++ more) e seat')) := by
  intro frames
  induction frames with
  | nil =>
    intro ms s seat h
    refine ⟨[], [], Agent.took_nothing [], Or.inl ⟨s, ?_, Or.inl ⟨rfl, rfl⟩⟩⟩
    rw [List.append_nil]
    exact h
  | cons frame frames ih =>
    intro ms s seat h
    cases hhear : a.hear frame with
    | error e =>
      rw [listen, ends_bind, hhear]
      refine ⟨[], _, Agent.took_nothing _, Or.inl ⟨s, ?_, Or.inr ⟨frame, frames, rfl, hhear⟩⟩⟩
      rw [List.append_nil]
      exact h
    | ok m =>
      rw [ends_listen_cons hhear]
      have hfirst := (Agent.took_nothing frames).cons hhear
      refine (hstep ms m s seat h).mono (fun p seat₁ h₁ => ?_) fun e seat₁ he => ?_
      · cases p with
        | await s₁ =>
          refine (ih (ms ++ [m]) s₁ seat₁ h₁).mono (fun b seat₂ h₂ => ?_) fun e seat₂ h₂ => ?_
          · obtain ⟨more, rest, htook, hdone⟩ := h₂
            rw [List.append_assoc] at hdone
            exact ⟨m :: more, rest, htook.cons hhear, hdone⟩
          · obtain ⟨more, rest, htook, hstuck⟩ := h₂
            rw [List.append_assoc] at hstuck
            exact ⟨m :: more, rest, htook.cons hhear, hstuck⟩
        | finished b => exact ⟨[m], frames, hfirst, h₁⟩
      · exact ⟨[m], frames, hfirst, Or.inr he⟩

end

end DeliTalk
