import DeliTalk.Proofs.Frames
import DeliTalk.Proofs.Requests
import DeliTalk.Proofs.Understanding
import DeliTalk.Session.Customer
import DeliTalk.Session.Server

/-!
# What one side does with one message

Both machines speak one sound language and look words up. Each act of a machine sends one message
and records one turn; the only thing that can go wrong is a message that does not fit into its
frame. What a side says is described by the operation it says and the sandwich it shows.

* `Seat.Did`: what a machine sent and recorded on the way.
* `Agent.ends_say`: one message.
* `Customer.ends_nextRequest`: what a customer asks for next, in any language.
* `Customer.ends_start`, `Customer.ends_ask`, `Customer.ends_left`: the customer's acts.
* `Server.ends_hello`, `Server.ends_receive`: the server's acts.
-/

namespace DeliTalk

open Act

/-! ## 1. Seats -/

/-- The text of some words, if there are any. -/
def Phrase.text? (ts : List Tagged) : Option String :=
  if ts.isEmpty then none else some (Phrase.render ts)

namespace Seat

variable {α : Type} {s s' s'' : Seat ℝ}

/-- What a machine sent and recorded from one moment to another. -/
structure Did (s s' : Seat ℝ) (frames : List Bytes) (records : List (TurnRecord ℝ)) : Prop where
  frames : s'.frames = s.frames ++ frames
  records : s'.records = s.records ++ records

theorem Did.refl (s : Seat ℝ) : s.Did s [] [] := ⟨by simp, by simp⟩

theorem Did.trans {fs fs' : List Bytes} {rs rs' : List (TurnRecord ℝ)} (h : s.Did s' fs rs)
    (h' : s'.Did s'' fs' rs') : s.Did s'' (fs ++ fs') (rs ++ rs') :=
  ⟨by rw [h'.frames, h.frames, List.append_assoc], by rw [h'.records, h.records, List.append_assoc]⟩

/-- A seat with another table. -/
def withTable (s : Seat ℝ) (t : Table ℝ) : Seat ℝ := { s with table := t }

theorem did_withTable (s : Seat ℝ) (t : Table ℝ) : s.Did (s.withTable t) [] [] :=
  ⟨(List.append_nil _).symm, (List.append_nil _).symm⟩

/-- A seat with another mind. -/
def withMind (s : Seat ℝ) (m : Mind ℝ) : Seat ℝ := s.withTable { s.table with mind := m }

@[simp] theorem ends_atTable {x : Act (Table ℝ) α} {post : α → Seat ℝ → Prop}
    {flaw : Fault → Seat ℝ → Prop} :
    Ends (atTable x) s post flaw ↔ Ends x s.table (fun a t => post a (s.withTable t))
      (fun e t => flaw e (s.withTable t)) := ends_on

@[simp] theorem ends_minded {x : Act (Mind ℝ) α} {post : α → Seat ℝ → Prop}
    {flaw : Fault → Seat ℝ → Prop} :
    Ends (minded x) s post flaw ↔ Ends x s.table.mind (fun a m => post a (s.withMind m))
      (fun e m => flaw e (s.withMind m)) := by
  unfold minded Table.minded
  rw [ends_atTable, ends_on]
  exact Iff.rfl

/-- A seat with one more event. -/
def noting (s : Seat ℝ) (e : Event ℝ) : Seat ℝ := { s with events := s.events ++ [e] }

@[simp] theorem ends_emit {e : Event ℝ} {post : PUnit → Seat ℝ → Prop}
    {flaw : Fault → Seat ℝ → Prop} : Ends (emit e) s post flaw ↔ post ⟨⟩ (s.noting e) := Iff.rfl

@[simp] theorem ends_save {post : PUnit → Seat ℝ → Prop} {flaw : Fault → Seat ℝ → Prop} :
    Ends save s post flaw ↔ post ⟨⟩ (s.noting (.saved s.personality)) := by
  unfold save
  rw [ends_bind, ends_get, ends_emit]

@[simp] theorem table_noting (e : Event ℝ) : (s.noting e).table = s.table := rfl

@[simp] theorem frames_withTable (t : Table ℝ) : (s.withTable t).frames = s.frames := rfl

@[simp] theorem records_withTable (t : Table ℝ) : (s.withTable t).records = s.records := rfl

@[simp] theorem sent_withTable (t : Table ℝ) : (s.withTable t).sent = s.sent := rfl

@[simp] theorem sent_withMind (m : Mind ℝ) : (s.withMind m).sent = s.sent := rfl

@[simp] theorem sent_said {phrase : String} {pitch duration : ℝ} :
    (s.noting (.said phrase pitch duration)).sent = s.sent := by simp [noting, Seat.sent]

@[simp] theorem sent_shown {r : Render} : (s.noting (.shown r)).sent = s.sent := by
  simp [noting, Seat.sent]

@[simp] theorem sent_saved {p : Personality ℝ} : (s.noting (.saved p)).sent = s.sent := by
  simp [noting, Seat.sent]

@[simp] theorem sent_recorded {r : TurnRecord ℝ} : (s.noting (.recorded r)).sent = s.sent := by
  simp [noting, Seat.sent]

@[simp] theorem sent_sent {m : Message} {frame : Bytes} :
    (s.noting (.sent m frame)).sent = s.sent ++ [m] := by simp [noting, Seat.sent]

theorem did_said {phrase : String} {pitch duration : ℝ} :
    s.Did (s.noting (.said phrase pitch duration)) [] [] :=
  ⟨by simp [noting, Seat.frames], by simp [noting, Seat.records]⟩

theorem did_shown {r : Render} : s.Did (s.noting (.shown r)) [] [] :=
  ⟨by simp [noting, Seat.frames], by simp [noting, Seat.records]⟩

theorem did_saved {p : Personality ℝ} : s.Did (s.noting (.saved p)) [] [] :=
  ⟨by simp [noting, Seat.frames], by simp [noting, Seat.records]⟩

theorem did_sent {m : Message} {frame : Bytes} : s.Did (s.noting (.sent m frame)) [frame] [] :=
  ⟨by simp [noting, Seat.frames], by simp [noting, Seat.records]⟩

theorem did_recorded {r : TurnRecord ℝ} : s.Did (s.noting (.recorded r)) [] [r] :=
  ⟨by simp [noting, Seat.frames], by simp [noting, Seat.records]⟩

end Seat

namespace Table

/-- What holds at a table whatever its source draws. -/
def Rests (P : Table ℝ → Prop) (t : Table ℝ) : Prop :=
  t.mind.chance.Proper ∧ ∀ c : Chance ℝ, c.Proper → P (t.withChance c)

theorem Rests.after {P : Table ℝ → Prop} {t : Table ℝ} (h : Rests P t) {c : Chance ℝ}
    (hc : t.mind.chance.Drawn c) : P (t.withChance c) := h.2 c (hc.proper h.1)

end Table

/-! ## 2. One message -/

namespace Agent

variable (a : Agent ℝ)

/-- The message of some words and perhaps a sandwich. -/
def message (ts : List Tagged) (s : Option Sandwich) : Message := ⟨Phrase.text? ts, s⟩

/-- The frame of a message, if it has one. -/
def Frames (m : Message) (frame : Bytes) : Prop :=
  Frame.encode ℝ a.config.frameSize m = .ok frame

/-- Whether a fault is that of a message that does not fit into a frame. -/
def Refuses (m : Message) (e : Fault) : Prop := Frame.encode ℝ a.config.frameSize m = .error e

/-- What holds once a machine said something: the message was sent and recorded. -/
def Uttered (speaker : Speaker) (turn : Nat) (x : Option Operation) (s : Option Sandwich)
    (ts : List Tagged) (seat seat' : Seat ℝ) : Prop :=
  seat'.table = seat.table ∧ seat'.sent = seat.sent ++ [message ts s] ∧
    ∃ frame, a.Frames (message ts s) frame ∧
      seat.Did seat' [frame] [a.turnRecord speaker turn (Phrase.text? ts) x s none]

/-- **One message** is sent and recorded, unless it does not fit. -/
theorem ends_say {speaker : Speaker} {turn : Nat} {x : Option Operation} {s : Option Sandwich}
    {ts : List Tagged} (hs : speak a.lexicon x = .ok ts) (seat : Seat ℝ) :
    Ends (a.say speaker turn x s) seat (fun _ => a.Uttered speaker turn x s ts seat)
      (fun e seat' => seat'.sent = seat.sent ∧ a.Refuses (message ts s) e) := by
  -- the last acts are the same whatever was said and shown before
  have hsend : ∀ seat₁ : Seat ℝ, seat₁.table = seat.table → seat₁.sent = seat.sent →
      seat.Did seat₁ [] [] →
      Ends (do
        let frame ← Act.ofExcept (Frame.encode ℝ a.config.frameSize (message ts s))
        Seat.emit (.sent (message ts s) frame)
        Seat.emit (.recorded (a.turnRecord speaker turn (Phrase.text? ts) x s none))) seat₁
      (fun _ => a.Uttered speaker turn x s ts seat)
      (fun e seat' => seat'.sent = seat.sent ∧ a.Refuses (message ts s) e) := by
    intro seat₁ htable hsent hdid
    cases hframe : Frame.encode ℝ a.config.frameSize (message ts s) with
    | error e => exact ⟨hsent, hframe⟩
    | ok frame =>
      refine ⟨htable, ?_, frame, hframe, (hdid.trans Seat.did_sent).trans Seat.did_recorded⟩
      rw [← hsent]
      exact Seat.sent_recorded.trans Seat.sent_sent
  unfold say
  rw [hs]
  simp only
  rw [ends_bind, ends_ok,
    show (if ts.isEmpty = true then none else some (Phrase.render ts)) = Phrase.text? ts from rfl]
  simp only [message] at hsend ⊢
  generalize Phrase.text? ts = text at hsend ⊢
  cases text with
  | none =>
    cases s with
    | none => exact hsend seat rfl rfl (.refl seat)
    | some sandwich => exact hsend _ rfl Seat.sent_shown Seat.did_shown
  | some phrase =>
    cases s with
    | none => exact hsend _ rfl Seat.sent_said Seat.did_said
    | some sandwich =>
      exact hsend _ rfl (Seat.sent_shown.trans Seat.sent_said) (Seat.did_said.trans Seat.did_shown)

/-- Whether a fault is that of some message of a kind that does not fit. -/
def Unfit (M : Message → Prop) (e : Fault) : Prop := ∃ m, M m ∧ a.Refuses m e

/-- **A pause** takes a draw at most. -/
theorem ends_pause (seat : Seat ℝ) : Ends a.pause seat (fun _ seat' => ∃ c,
    seat.table.mind.chance.Drawn c ∧ seat' = seat.withTable (seat.table.withChance c)) never := by
  have hrefl := Chance.Drawn.refl seat.table.mind.chance
  unfold pause
  split
  · exact ⟨_, hrefl.draw, rfl⟩
  · exact ⟨_, hrefl, rfl⟩

section

variable {t : Taxonomy} {words : List (String × Entry)} (h : Lexicon.Sound t words) {a}

include h

/-- Anything can be said in a sound language, if with silence. -/
theorem Speaks.speak (ha : a.Speaks t words) (x : Option Operation) :
    ∃ ts, Agent.speak a.lexicon x = .ok ts := by
  cases x with
  | none => exact ⟨[], rfl⟩
  | some x =>
    obtain ⟨ts, hts, -⟩ := Agent.speak_spec h (g := a.grammar) ha.lexicon x
    exact ⟨ts, hts⟩

/-- **What is said is not heard as a goodbye**, unless it is one. -/
theorem Speaks.not_hearsGoodbye (ha : a.Speaks t words) {x : Operation} (hx : x ≠ .finish)
    {ts : List Tagged} (hts : Agent.speak a.lexicon (some x) = .ok ts) :
    ¬ a.HearsGoodbye (Phrase.text? ts) := by
  obtain ⟨us, hus, hspoken⟩ := Agent.speak_spec h (g := a.grammar) ha.lexicon x
  have heq : us = ts := Except.ok.inj (hus.symm.trans hts)
  subst heq
  by_cases hempty : us = []
  · subst hempty
    rintro ⟨m, m', r, hr, -⟩
    cases hr
  · have htext : Phrase.text? us = some (Phrase.render us) := by
      unfold Phrase.text?
      rw [if_neg (by simpa using hempty)]
    rw [htext]
    exact Agent.not_hearsGoodbye_render h ha (hspoken hempty).2 hx

/-- **Whatever is said is heard or not**, and only a goodbye is heard as one. -/
theorem Speaks.ends_understand (ha : a.Speaks t words) {x : Operation} (hx : x ≠ .finish)
    {ts : List Tagged} (hts : Agent.speak a.lexicon (some x) = .ok ts) (m : Mind ℝ) :
    Ends (a.understand (Phrase.text? ts)) m (fun r m' => m.Later m' ∧
      ∀ reading ∈ r, reading.operation ≠ .finish) never := by
  obtain ⟨r, m', hperform, hlater, -⟩ :=
    (Agent.ends_understand h ha (Phrase.text? ts) m).exists
  refine ends_of_perform hperform ⟨hlater, ?_⟩
  intro reading hreading hfinish
  rw [hreading] at hperform
  exact ha.not_hearsGoodbye h hx hts ⟨m, m', reading, hperform, hfinish⟩

end

end Agent

/-! ## 3. The customer -/

namespace Customer

variable {a : Agent ℝ} {M : Message → Prop}

/-- What comes of a wish: it is said, or taken back for something else if there are no words for
it. -/
def Voices (a : Agent ℝ) (Q : Option Operation → Table ℝ → Prop) :
    Option Operation → Table ℝ → Prop
  | none, t => Q none t
  | some x, t => ∃ ts, Agent.speak a.lexicon (some x) = .ok ts ∧ (ts ≠ [] → Q (some x) t) ∧
      (ts = [] → ∃ y o, t.order.retract = .ok (y, o) ∧ Q (some y) { t with order := o })

/-- What comes of a wish in any language: there may be words that cannot be read. -/
def Utters (a : Agent ℝ) (Q : Option Operation → Table ℝ → Prop) (F : Fault → Prop) :
    Option Operation → Table ℝ → Prop
  | none, t => Q none t
  | some x, t => (∀ e, Agent.speak a.lexicon (some x) = .error e → F e) ∧
      ∀ ts, Agent.speak a.lexicon (some x) = .ok ts → (ts ≠ [] → Q (some x) t) ∧
        (ts = [] → ∃ y o, t.order.retract = .ok (y, o) ∧ Q (some y) { t with order := o })

theorem Voices.utters {Q : Option Operation → Table ℝ → Prop} {x : Option Operation} {t : Table ℝ}
    (h : Voices a Q x t) : Utters a Q (fun _ => False) x t := by
  cases x with
  | none => exact h
  | some x =>
    obtain ⟨ts, hts, hvoiced⟩ := h
    refine ⟨fun e he => ?_, fun ts' hts' => ?_⟩
    · cases hts.symm.trans he
    · cases hts.symm.trans hts'
      exact hvoiced

/-- **The next request**, in any language: only the customer's table changes. -/
theorem ends_nextRequest {Q : Option Operation → Table ℝ → Prop} {F : Fault → Prop} {turn : Nat}
    {result : Sandwich} {seat : Seat ℝ}
    (hdone : ¬ (turn : Int) < a.config.maxTurns → Q none seat.table)
    (hnext : (turn : Int) < a.config.maxTurns →
      Ends (Order.next result) seat.table (Utters a Q F) never) :
    Ends (nextRequest a turn result) seat (fun x seat' => ∃ t, Q x t ∧ seat' = seat.withTable t)
      (fun e seat' => F e ∧ ∃ t, seat' = seat.withTable t) := by
  unfold nextRequest
  split
  · rename_i hlt
    rw [ends_bind, Seat.ends_atTable]
    refine (hnext hlt).sure.imp fun x t hx => ?_
    cases x with
    | none => exact ⟨t, hx, rfl⟩
    | some x =>
      simp only
      rw [ends_bind]
      cases hspeak : Agent.speak a.lexicon (some x) with
      | error e => exact ⟨hx.1 e hspeak, t, rfl⟩
      | ok ts =>
        obtain ⟨hsaid, hsilent⟩ := hx.2 ts hspeak
        rw [ends_ok]
        split
        · rename_i hempty
          obtain ⟨y, o, hretract, hy⟩ := hsilent (List.isEmpty_iff.mp hempty)
          have htable : (seat.withTable t).table.order.retract = .ok (y, o) := hretract
          simp only [ends_bind, ends_get, htable, ends_ok, Seat.ends_atTable, Table.ends_reorder,
            ends_pure]
          exact ⟨_, hy, rfl⟩
        · rename_i hempty
          exact ⟨t, hsaid fun hnil => hempty (List.isEmpty_iff.mpr hnil), rfl⟩
  · rename_i hlt
    exact ⟨seat.table, hdone hlt, rfl⟩

/-- **A first request** fails where a counter has no logarithm, and nothing is sent. -/
theorem ends_ask_faded {seat : Seat ℝ} (hflawed : ¬ seat.table.mind.personality.Counted)
    (hhistory : seat.table.order.history = []) (hturns : 0 < a.config.maxTurns)
    (result : Sandwich) : Ends (ask a 0 result) seat (fun _ _ => False)
      (fun e seat' => e = .noLogarithm ∧ seat'.sent = seat.sent) := by
  obtain ⟨t, hfault⟩ := Order.perform_next_fault hflawed hhistory result
  unfold ask nextRequest
  rw [ends_bind, if_pos (by exact_mod_cast hturns), ends_bind, Seat.ends_atTable]
  exact ends_of_fault hfault ⟨rfl, rfl⟩

/-- What a customer says for a request, or when it has none. -/
def spoken (x : Option Operation) : Operation := x.getD .finish

/-- A customer that asked for something, or said goodbye. -/
def waiting (x : Option Operation) (turn : Nat) (result : Sandwich) : Waiting :=
  ⟨if x.isSome then .asking else .leaving, turn, result⟩

/-- What holds after one message of a customer. -/
def Asked (a : Agent ℝ) (Q : Option Operation → Table ℝ → Prop) (seat : Seat ℝ) (turn : Nat)
    (result : Sandwich) (w : Waiting) (seat' : Seat ℝ) : Prop :=
  ∃ x ts frame, w = waiting x turn result ∧ Q x seat'.table ∧
    Agent.speak a.lexicon (some (spoken x)) = .ok ts ∧ a.Frames (Agent.message ts none) frame ∧
    seat.Did seat' [frame]
      [a.turnRecord .customer turn (Phrase.text? ts) (some (spoken x)) none none]

theorem Asked.after {Q : Option Operation → Table ℝ → Prop} {seat seat' seat'' : Seat ℝ}
    {turn : Nat} {result : Sandwich} {w : Waiting} (h : Asked a Q seat' turn result w seat'')
    (hdid : seat.Did seat' [] []) : Asked a Q seat turn result w seat'' := by
  obtain ⟨x, ts, frame, hw, hx, hts, hframe, hdid'⟩ := h
  exact ⟨x, ts, frame, hw, hx, hts, hframe, hdid.trans hdid'⟩

/-- What holds after a message of a customer that is not done. -/
def Continues (a : Agent ℝ) (Q : Option Operation → Table ℝ → Prop) (seat : Seat ℝ) (turn : Nat)
    (result : Sandwich) (p : Progress Waiting (Outcome ℝ)) (seat' : Seat ℝ) : Prop :=
  ∃ w, p = .await w ∧ Asked a Q seat turn result w seat'

/-- **One request of a customer**, or its goodbye. -/
theorem ends_ask {Q : Option Operation → Table ℝ → Prop} {turn : Nat} {result : Sandwich}
    {seat : Seat ℝ} (hnext : Ends (nextRequest a turn result) seat
      (fun x seat' => Q x seat'.table ∧ seat.Did seat' [] []) never)
    (hrests : ∀ x t, Q x t → Table.Rests (Q x) t)
    (hspeak : ∀ x, ∃ ts, Agent.speak a.lexicon (some x) = .ok ts)
    (hsent : ∀ x t ts, Q x t → Agent.speak a.lexicon (some (spoken x)) = .ok ts →
      M (Agent.message ts none)) :
    Ends (ask a turn result) seat (Asked a Q seat (turn + 1) result) (fun e _ => a.Unfit M e) := by
  unfold ask
  rw [ends_bind]
  refine hnext.sure.imp fun x seat₁ h₁ => ?_
  rw [ends_bind]
  refine (a.ends_pause seat₁).sure.imp fun _ seat₂ h₂ => ?_
  obtain ⟨c, hc, rfl⟩ := h₂
  have hQ := (hrests x _ h₁.1).after hc
  obtain ⟨ts, hts⟩ := hspeak (spoken x)
  rw [ends_bind]
  refine (a.ends_say hts _).mono (fun _ seat₃ h₃ => ?_)
    fun e _ he => ⟨_, hsent x _ ts hQ hts, he.2⟩
  obtain ⟨htable, -, frame, hframe, hdid⟩ := h₃
  refine ⟨x, ts, frame, rfl, ?_, hts, hframe,
    (h₁.2.trans (Seat.did_withTable _ _)).trans hdid⟩
  rw [htable]
  exact hQ

/-- **The greeting is answered**: the first request follows. -/
theorem ends_greeted {Q : Option Operation → Table ℝ → Prop} {turn : Nat} {s s' : Sandwich}
    {text : Option String} {seat : Seat ℝ} (h : Ends (ask a turn s) seat
      (Asked a Q seat (turn + 1) s) (fun e _ => a.Unfit M e)) :
    Ends (receive a ⟨.greeting, turn, s'⟩ ⟨text, some s⟩) seat
      (Continues a Q seat (turn + 1) s)
      (fun e _ => a.Unfit M e) := by
  unfold receive
  simp only
  rw [ends_bind]
  exact h.imp fun w seat' hw => ⟨w, rfl, hw⟩

/-- What an order makes of an answer, understood or not. -/
def heeded (o : Order) (r : Option (Reading ℝ)) : Order := r.elim o fun r => o.hear r.operation

/-- **A request is answered**: the answer is heeded, and the next request follows. -/
theorem ends_answered {P : Table ℝ → Prop} {Q : Option Operation → Table ℝ → Prop} {turn : Nat}
    {s s' : Sandwich} {text : Option String} {seat : Seat ℝ}
    (hhear : Ends (a.understand text) seat.table.mind
      (fun r m => P ⟨heeded seat.table.order r, m⟩) never)
    (hask : ∀ seat' : Seat ℝ, P seat'.table → Ends (ask a turn s) seat'
      (Asked a Q seat' (turn + 1) s) (fun e _ => a.Unfit M e)) :
    Ends (receive a ⟨.asking, turn, s'⟩ ⟨text, some s⟩) seat
      (Continues a Q seat (turn + 1) s)
      (fun e _ => a.Unfit M e) := by
  -- the last acts are the same whether the answer was understood or not
  have hlast : ∀ seat₁ : Seat ℝ, seat.Did seat₁ [] [] → P seat₁.table →
      Ends (do
        Seat.save
        return Progress.await (← ask a turn s)) seat₁
      (Continues a Q seat (turn + 1) s)
      (fun e _ => a.Unfit M e) := by
    intro seat₁ hdid hp
    rw [ends_bind, Seat.ends_save, ends_bind]
    refine (hask (seat₁.noting (.saved seat₁.personality)) hp).imp fun w seat' hw => ?_
    exact ⟨w, rfl, hw.after (hdid.trans Seat.did_saved)⟩
  unfold receive
  simp only [Option.getD_some]
  rw [ends_bind, Seat.ends_emit, ends_bind, Seat.ends_minded]
  refine hhear.sure.imp fun r m hr => ?_
  have hdid := Seat.did_shown.trans (Seat.did_withTable
    (seat.noting (.shown (Render.of s (Agent.gloss a.lexicon text)))) ⟨seat.table.order, m⟩)
  cases r with
  | none => exact hlast _ hdid hr
  | some reading =>
    simp only
    rw [ends_bind, Seat.ends_atTable, Table.ends_reorder]
    exact hlast _ (hdid.trans (Seat.did_withTable _ _)) hr

/-- How a customer sees the end. -/
def verdict {R : Type} [Scalar R] (a : Agent R) (o : Order) (turn : Nat) (result : Sandwich) :
    Outcome R :=
  ⟨a.session, o.desired, result, Scalar.ofRat (o.score result), turn, o.gaveUp⟩

/-- **The goodbye is answered**: the customer judges what it got. -/
theorem ends_left {turn : Nat} {s s' : Sandwich} {text : Option String} {seat : Seat ℝ} :
    Ends (receive a ⟨.leaving, turn, s'⟩ ⟨text, some s⟩) seat
      (fun p seat' => p = .finished (verdict a seat.table.order turn s) ∧
        seat.Did seat' [] [a.turnRecord .judge turn none none (some s)
          (some (Scalar.ofRat (seat.table.order.score s)))]) never := by
  unfold receive conclude
  simp only [Option.getD_some, ends_bind, Seat.ends_emit, ends_get, Seat.ends_minded, Mind.change,
    ends_modify, Seat.ends_save, ends_pure]
  exact ⟨rfl, ((Seat.did_shown.trans (Seat.did_withTable _ _)).trans Seat.did_saved).trans
    Seat.did_recorded⟩

/-- The order of a customer that dreams of a sandwich. -/
def placed {R : Type} (a : Agent R) (desired : Sandwich) (largest : Nat) : Order :=
  { desired := desired, maxFailures := a.config.maxFailures, maxCount := max 1 (largest : Int) }

/-- **The greeting of a customer**, its order placed. -/
theorem ends_start (seat : Seat ℝ) {largest : Nat} {d : Sandwich} {c : Chance ℝ}
    {ts : List Tagged} (hlargest : a.lexicon.largestNumber = .ok largest)
    (hdream : (Order.dream a.lexicon.taxonomy seat.personality a.config.minFillings
      a.config.maxFillings).perform seat.table.mind.chance = (.ok d, c))
    (hts : Agent.speak a.lexicon (some .finish) = .ok ts) (hsent : M (Agent.message ts none)) :
    Ends (start a) seat
      (fun w seat' => w = ⟨.greeting, 0, {}⟩ ∧
        seat'.table = ⟨placed a d largest, { seat.table.mind with chance := c }⟩ ∧
        ∃ frame, a.Frames (Agent.message ts none) frame ∧ seat.Did seat' [frame]
          [a.turnRecord .customer 0 (Phrase.text? ts) (some .finish) none none])
      (fun e _ => a.Unfit M e) := by
  have hlucky : Ends (Table.lucky (Order.dream a.lexicon.taxonomy seat.personality
      a.config.minFillings a.config.maxFillings)) seat.table
      (fun x t => x = d ∧ t = seat.table.withChance c) never := by
    unfold Table.lucky Mind.lucky
    rw [ends_on, ends_on]
    exact ends_of_perform hdream ⟨rfl, rfl⟩
  unfold start place
  rw [ends_bind, ends_bind, hlargest, ends_ok, ends_bind, ends_get, ends_bind]
  unfold Seat.lucky
  rw [Seat.ends_atTable]
  refine hlucky.sure.imp ?_
  rintro _ _ ⟨rfl, rfl⟩
  rw [Seat.ends_atTable, Table.ends_reorder, ends_bind]
  refine (a.ends_say hts _).mono (fun _ seat' h => ?_) fun e _ he => ⟨_, hsent, he.2⟩
  obtain ⟨htable, -, frame, hframe, hdid⟩ := h
  exact ⟨rfl, htable, frame, hframe,
    ((Seat.did_withTable _ _).trans (Seat.did_withTable _ _)).trans hdid⟩

end Customer

/-! ## 4. The server -/

namespace Server

variable {a : Agent ℝ} {M : Message → Prop} {seat : Seat ℝ} {s : Serving}

/-- The table of a server that has just opened. -/
def opened {R : Type} (a : Agent R) (m : Mind R) : Table R :=
  let p := m.personality.restock a.lexicon.taxonomy.leafNames a.config.stockPerIngredient
  ⟨{ maxFailures := a.config.maxFailures }, { m with personality := p }⟩

theorem ends_start (a : Agent ℝ) (seat : Seat ℝ) : Ends (start a) seat (fun s seat' => s = {} ∧
    seat' = seat.withTable (opened a seat.table.mind)) never := by
  unfold start
  rw [ends_bind, Seat.ends_atTable, Table.ends_reorder, ends_bind, Seat.ends_minded]
  unfold Mind.change
  rw [ends_modify]
  exact ⟨rfl, rfl⟩

/-- **Any message** is heard, and answered after a pause: only the server's table changes before
the answer. -/
theorem ends_receive {Q : Option (Reading ℝ) → Table ℝ → Prop} {m : Message}
    {post : Progress Serving Sandwich → Seat ℝ → Prop} {flaw : Fault → Seat ℝ → Prop}
    (hhear : Ends (a.understand m.text) seat.table.mind
      (fun r m => ∀ c, m.chance.Drawn c → Q r ⟨seat.table.order, { m with chance := c }⟩)
      (fun e m => flaw e (seat.withMind m)))
    (hsilent : ∀ t, Q none t → Ends (do
      a.say .server s.turn none (some s.sandwich)
      return Progress.await { s with turn := s.turn + 1 }) (seat.withTable t) post flaw)
    (hgreet : ∀ r t, Q (some r) t → r.operation = .finish →
      Ends (greet a s) (seat.withTable t) post flaw)
    (hserve : ∀ r t, Q (some r) t → r.operation ≠ .finish →
      Ends (serve a s r) (seat.withTable t) post flaw) :
    Ends (receive a s m) seat post flaw := by
  unfold receive
  rw [ends_bind, Seat.ends_minded]
  refine hhear.imp fun r mind hr => ?_
  rw [ends_bind]
  refine (a.ends_pause _).sure.imp fun _ seat₁ h₁ => ?_
  obtain ⟨c, hc, rfl⟩ := h₁
  have hQ := hr c hc
  cases r with
  | none => exact hsilent _ hQ
  | some r =>
    simp only
    split
    · rename_i hfinish
      exact hgreet r _ hQ hfinish
    · rename_i hother
      exact hserve r _ hQ hother

/-- What holds after one message of a server: what it said and showed, and where it is. -/
def Answered (a : Agent ℝ) (P : Option Operation → Sandwich → Table ℝ → Prop) (seat : Seat ℝ)
    (s : Serving) (p : Progress Serving Sandwich) (seat' : Seat ℝ) : Prop :=
  ∃ y sandwich ts frame, p = .await ⟨s.turn + 1, s.greeted, sandwich⟩ ∧
    P y sandwich seat'.table ∧ Agent.speak a.lexicon y = .ok ts ∧
    a.Frames (Agent.message ts (some sandwich)) frame ∧ seat.Did seat' [frame]
      [a.turnRecord .server s.turn (Phrase.text? ts) y (some sandwich) none]

section

variable {P : Option Operation → Sandwich → Table ℝ → Prop} {seat' : Seat ℝ}

theorem ends_silent (hdid : seat.Did seat' [] []) (h : P none s.sandwich seat'.table)
    (hsent : M (Agent.message [] (some s.sandwich))) :
    Ends (do
      a.say .server s.turn none (some s.sandwich)
      return Progress.await { s with turn := s.turn + 1 }) seat'
      (Answered a P seat s) (fun e _ => a.Unfit M e) := by
  rw [ends_bind]
  have hsilence : Agent.speak a.lexicon none = .ok [] := rfl
  refine (a.ends_say hsilence seat').mono (fun _ seat'' hsaid => ?_) fun e _ he => ⟨_, hsent, he.2⟩
  obtain ⟨htable, -, frame, hframe, hdid'⟩ := hsaid
  refine ⟨none, s.sandwich, [], frame, rfl, ?_, rfl, hframe, hdid.trans hdid'⟩
  rw [htable]
  exact h

/-- **What was understood is served.** -/
theorem ends_serve {r : Reading ℝ} (hdid : seat.Did seat' [] [])
    (h : Ends (Order.serve r.operation r.skills r.lex s.sandwich) seat'.table
      (fun p t => P p.2 p.1 t) never)
    (hspeak : ∀ y, ∃ ts, Agent.speak a.lexicon y = .ok ts)
    (hsent : ∀ y sandwich t ts, P y sandwich t → Agent.speak a.lexicon y = .ok ts →
      M (Agent.message ts (some sandwich))) :
    Ends (serve a s r) seat' (Answered a P seat s) (fun e _ => a.Unfit M e) := by
  unfold serve
  rw [ends_bind, Seat.ends_atTable]
  refine h.sure.imp fun p t hp => ?_
  obtain ⟨sandwich, y⟩ := p
  obtain ⟨ts, hts⟩ := hspeak y
  simp only
  rw [ends_bind]
  refine (a.ends_say hts _).mono (fun _ seat'' hsaid => ?_)
    fun e _ he => ⟨_, hsent y sandwich t ts hp hts, he.2⟩
  obtain ⟨htable, -, frame, hframe, hdid'⟩ := hsaid
  rw [ends_bind, Seat.ends_save]
  refine ⟨y, sandwich, ts, frame, rfl, ?_, hts, hframe,
    ((hdid.trans (Seat.did_withTable _ _)).trans hdid').trans Seat.did_saved⟩
  rw [Seat.table_noting, htable]
  exact hp

end

/-- The sandwich a server shows when it hears a goodbye. -/
def Serving.parting (s : Serving) : Sandwich :=
  if s.greeted then { s.sandwich with complete := true } else s.sandwich

/-- What comes after a goodbye: the first one is a greeting, the second one is the end. -/
def Serving.onward (s : Serving) : Progress Serving Sandwich :=
  if s.greeted then .finished s.parting else .await ⟨s.turn + 1, true, s.sandwich⟩

/-- What holds after a server answered a goodbye in some words. -/
def Parted (a : Agent ℝ) (P : Table ℝ → Prop) (ts : List Tagged) (seat : Seat ℝ) (s : Serving)
    (p : Progress Serving Sandwich) (seat' : Seat ℝ) : Prop :=
  ∃ frame, p = s.onward ∧ P seat'.table ∧ a.Frames (Agent.message ts (some s.parting)) frame ∧
    seat.Did seat' [frame]
      [a.turnRecord .server s.turn (Phrase.text? ts) (some .finish) (some s.parting) none]

theorem ends_greet {P : Table ℝ → Prop} {seat' : Seat ℝ} {ts : List Tagged}
    (hdid : seat.Did seat' [] []) (h : P seat'.table)
    (hts : Agent.speak a.lexicon (some .finish) = .ok ts)
    (hsent : M (Agent.message ts (some s.parting))) :
    Ends (greet a s) seat' (Parted a P ts seat s) (fun e _ => a.Unfit M e) := by
  unfold Serving.parting at hsent
  unfold greet Parted Serving.onward Serving.parting
  cases hgreeted : s.greeted with
  | true =>
    rw [if_pos rfl, ends_bind]
    rw [hgreeted] at hsent
    refine (a.ends_say hts seat').mono (fun _ seat'' hsaid => ?_) fun e _ he => ⟨_, hsent, he.2⟩
    obtain ⟨htable, -, frame, hframe, hdid'⟩ := hsaid
    rw [ends_bind, Seat.ends_save]
    refine ⟨frame, rfl, ?_, hframe, (hdid.trans hdid').trans Seat.did_saved⟩
    rw [Seat.table_noting, htable]
    exact h
  | false =>
    rw [if_neg (by simp), ends_bind]
    rw [hgreeted] at hsent
    refine (a.ends_say hts seat').mono (fun _ seat'' hsaid => ?_) fun e _ he => ⟨_, hsent, he.2⟩
    obtain ⟨htable, -, frame, hframe, hdid'⟩ := hsaid
    refine ⟨frame, rfl, ?_, hframe, hdid.trans hdid'⟩
    rw [htable]
    exact h

/-- **A goodbye is answered with a goodbye.** -/
theorem ends_hello {t : Taxonomy} {words : List (String × Entry)} (h : Lexicon.Sound t words)
    (ha : a.Speaks t words) {w : Tagged} (hw : a.lexicon.wordForUsage .greeting = .ok w)
    {P : Table ℝ → Prop} (hrests : Table.Rests P seat.table)
    (hsent : M (Agent.message [w] (some s.parting))) :
    Ends (receive a s (Agent.message [w] none)) seat (Parted a P [w] seat s)
      (fun e _ => a.Unfit M e) := by
  have hspeak : Agent.speak a.lexicon (some .finish) = .ok [w] := by
    rw [Agent.speak, Operation.encode, hw]
    rfl
  obtain ⟨reading, hunderstood, hfinish⟩ :=
    Agent.perform_understand_hello h ha hw seat.table.mind
  refine ends_receive (Q := fun r table => r = some reading ∧ P table) ?_ ?_ ?_ ?_
  · exact ends_of_perform hunderstood fun c hc => ⟨rfl, hrests.after hc⟩
  · intro table hnone
    cases hnone.1
  · intro r table hr _
    exact ends_greet (Seat.did_withTable seat table) hr.2 hspeak hsent
  · intro r table hr hother
    cases hr.1
    exact absurd hfinish hother

end Server

end DeliTalk
