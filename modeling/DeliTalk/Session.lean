import DeliTalk.Config
import DeliTalk.Grammar
import DeliTalk.Message.Line
import DeliTalk.Operation.Document
import DeliTalk.Operation.Speech
import DeliTalk.Order
import DeliTalk.Presentation
import DeliTalk.Transcript

/-!
# A machine in a session

A session is a strict alternation of one message each way:

    customer: hello                     server: hello and an empty sandwich
    customer: an operation              server: an answer, or silence, and the sandwich
    ...
    customer: goodbye                   server: goodbye and the finished sandwich

Each side is a machine that takes one message and does everything that follows from it up to its
next message. What it does towards the outside is written down as events in order: what was
said and shown, the messages sent, the turns recorded, the personality saved.

* `Agent`: what stays the same during a session. `Seat`: what changes.
* `Agent.understand`, `gloss`, `speak`: hearing and speaking.
* `Agent.say`: one message, with everything that goes with it.
-/

namespace DeliTalk

/-- What a machine works with during a session. -/
structure Agent (R : Type) where
  lexicon : Lexicon
  config : Config R
  pitch : R
  session : String

/-- What a machine does towards the outside. -/
inductive Event (R : Type) where
  | said (phrase : String) (pitch duration : R)
  | shown (snapshot : Render)
  | sent (message : Message) (frame : Bytes)
  | recorded (turn : TurnRecord R)
  | saved (personality : Personality R)

/-- A machine at work: its order, its mind, and the events so far. -/
structure Seat (R : Type) where
  table : Table R
  events : List (Event R) := []

/-- Which side of a negotiation speaks. -/
inductive Speaker where
  | customer | server | judge
deriving Repr, DecidableEq

/-- The name of a side in the records. -/
def Speaker.name : Speaker → String
  | customer => "customer"
  | server => "server"
  | judge => "judge"

/-- What comes after a message: the next one is awaited, or the session is over. -/
inductive Progress (σ β : Type) where
  | await (state : σ)
  | finished (result : β)

namespace Seat

variable {R α : Type}

/-- A machine that has not done anything yet. -/
def of (m : Mind R) : Seat R := { table := ⟨{}, m⟩ }

/-- An act at the table. -/
def atTable (x : Act (Table R) α) : Act (Seat R) α :=
  Act.on (·.table) (fun t s => { s with table := t }) x

/-- An act of the mind. -/
def minded (x : Act (Mind R) α) : Act (Seat R) α := atTable (Table.minded x)

/-- An act of luck. -/
def lucky (x : Luck R α) : Act (Seat R) α := atTable (Table.lucky x)

/-- Writes down an event. -/
def emit (e : Event R) : Act (Seat R) Unit :=
  modify fun s => { s with events := s.events ++ [e] }

/-- The personality of the machine. -/
def personality (s : Seat R) : Personality R := s.table.mind.personality

/-- Saves the personality. -/
def save : Act (Seat R) Unit := do emit (.saved (← get).personality)

/-! ## Views of the events -/

/-- The messages sent. -/
def sent (s : Seat R) : List Message := s.events.filterMap fun
  | .sent m _ => some m
  | _ => none

/-- The frames sent. -/
def frames (s : Seat R) : List Bytes := s.events.filterMap fun
  | .sent _ f => some f
  | _ => none

/-- The turns recorded. -/
def records (s : Seat R) : List (TurnRecord R) := s.events.filterMap fun
  | .recorded r => some r
  | _ => none

/-- The phrases said, with their pitches and durations. -/
def sounds (s : Seat R) : List (String × R × R) := s.events.filterMap fun
  | .said phrase pitch duration => some (phrase, pitch, duration)
  | _ => none

/-- The snapshot shown last. -/
def shown? (s : Seat R) : Option Render := (s.events.filterMap fun
  | .shown r => some r
  | _ => none).getLast?

/-- The personality saved last. -/
def saved? (s : Seat R) : Option (Personality R) := (s.events.filterMap fun
  | .saved p => some p
  | _ => none).getLast?

end Seat

namespace Agent

variable {R : Type} [Scalar R]

/-- The grammar of a machine. -/
def grammar (a : Agent R) : Grammar := ⟨a.lexicon, a.config.retryBudget⟩

/-- What is understood of what was heard; nothing of silence or gibberish. -/
def understand (a : Agent R) (text : Option String) : Act (Mind R) (Option (Reading R)) := do
  match text with
  | none | some "" => return none
  | some text =>
    match ← (a.grammar.parse a.config.vocabularyLearning text).attempt with
    | .ok reading => return some reading
    | .error (.unparsed _) => return none
    | .error e => Act.fault e

/-- The glosses of what was heard, for display; gibberish is shown as it is. -/
def gloss (lex : Lexicon) (text : Option String) : String :=
  match text with
  | none | some "" => ""
  | some text =>
    match Phrase.read text with
    | .ok phrase => Phrase.subtitles ((Grammar.mk lex 1).annotate phrase)
    | .error _ => text

/-- The words for an operation; none where there is nothing to say or no word for it. -/
def speak (lex : Lexicon) (x : Option Operation) : Except Fault (List Tagged) :=
  match x with
  | none => .ok []
  | some x =>
    match x.encode lex with
    | .error (.missing _) => .ok []
    | words => words

/-- A turn for the records. -/
def turnRecord (a : Agent R) (speaker : Speaker) (turn : Nat) (text : Option String)
    (x : Option Operation) (s : Option Sandwich) (score : Option R) : TurnRecord R where
  session := a.session
  turn := turn
  speaker := speaker.name
  text := text
  operation := x.map Operation.toDoc
  sandwich := s.map Sandwich.toDoc
  score := score

/-- Says an operation and sends it together with a sandwich. -/
def say (a : Agent R) (speaker : Speaker) (turn : Nat) (x : Option Operation)
    (s : Option Sandwich) : Act (Seat R) Unit := do
  let words ← Act.ofExcept (speak a.lexicon x)
  let text := if words.isEmpty then none else some (Phrase.render words)
  match text with
  | some phrase => Seat.emit (.said phrase a.pitch (Tone.duration words))
  | none => pure ()
  match s with
  | some sandwich => Seat.emit (.shown (Render.of sandwich (Phrase.subtitles words)))
  | none => pure ()
  let message : Message := ⟨text, s⟩
  let frame ← Act.ofExcept (Frame.encode R a.config.frameSize message)
  Seat.emit (.sent message frame)
  Seat.emit (.recorded (a.turnRecord speaker turn text x s none))

/-- A pause before speaking, which takes one draw if pauses are made at all. -/
def pause (a : Agent R) : Act (Seat R) Unit := do
  if !decide (a.config.pace ≤ (0.0 : R)) then
    let _ ← Seat.lucky (between (a.config.pace / 2.0) (a.config.pace * 2.0))

/-- The message of a frame that arrived; no frame arrives when there is no time to wait. -/
def hear (a : Agent R) (frame : Bytes) : Except Fault Message :=
  if a.config.turnTimeout ≤ (0.0 : R) then .error (.line .timedOut)
  else
    match Frame.decode R frame with
    | .ok m => .ok m
    | .error e => .error (.line e)

/-- What a wait has to be longer than for an answer to come in time, in seconds. There is no clock
here, and the number means nothing by itself: a longer wait stands for one in which no timeout fires,
a shorter one for one that is over before any answer. -/
def answerTime : R := 0.00001

/-- The message of a frame that is yet to arrive when the wait for it begins. A wait of an undefined
length is over before that. -/
def hearAnswer (a : Agent R) (frame : Bytes) : Except Fault Message :=
  if (answerTime : R) < a.config.turnTimeout then a.hear frame else .error (.line .timedOut)

end Agent

end DeliTalk
