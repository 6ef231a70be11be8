import DeliTalk.Service.Address
import DeliTalk.Session.Negotiation

/-!
# A service around one machine

Requests look words up, have phrases understood and operations spoken, show the machine's
personality, and let two newborn machines negotiate and read what they said. The understanding
is done by the machine itself, so it leaves traces in its mind.

* `Route`: what can be asked for, and `Route.ofAddress?`.
* `Refusal`: every reason not to answer, with its status and wording.
* `Service.handle`: one request.
-/

namespace DeliTalk

/-! ## 1. Requests -/

/-- A request: what to do, where, and with what. -/
structure Request (R : Type) where
  method : String
  address : Address
  body : Option (Doc R)

/-- What can be asked for. -/
inductive Route where
  | word (text : String)
  | ingredientWord (name : String)
  | understanding
  | speaking
  | personality
  | negotiations
  | recentTurns
  | turns (session : String)
deriving Repr, DecidableEq

namespace Route

/-- The route of a path. No name in a path is empty. -/
def ofPath? : List String → Option Route
  | ["lexicon", text] => if text = "" then none else some (word text)
  | ["ingredients", name, "word"] => if name = "" then none else some (ingredientWord name)
  | ["parse"] => some understanding
  | ["encode"] => some speaking
  | ["personality"] => some personality
  | ["negotiations"] => some negotiations
  | ["transcripts"] => some recentTurns
  | ["transcripts", session] => if session = "" then none else some (turns session)
  | _ => none

/-- The route of an address; slashes at its end do not matter. -/
def ofAddress? (a : Address) : Option Route := ofPath? a.path <|> ofPath? a.shortPath

/-- The method a route is asked for with. -/
def method : Route → String
  | understanding | speaking | negotiations => "POST"
  | _ => "GET"

end Route

/-! ## 2. Refusals -/

/-- Why a request is not answered. -/
inductive Refusal where
  | unknownRoute
  | wrongMethod
  | unknownWord
  | unknownIngredient
  | unknownSession
  | notUnderstood (cause : Unparsed)
  | notSpeakable (cause : Missing)
  | flawed (problems : List Problem)
deriving Repr, DecidableEq

namespace Refusal

/-- The status a refusal is reported with. -/
def status : Refusal → Nat
  | unknownRoute | unknownWord | unknownIngredient | unknownSession | notSpeakable _ => 404
  | wrongMethod => 405
  | notUnderstood _ | flawed _ => 422

/-- One step to a problem, as a document. -/
def stepDoc {R : Type} : Step → Doc R
  | .field name => .text name
  | .item index => .int index

/-- A problem as a document. -/
def problemDoc {R : Type} (p : Problem) : Doc R :=
  .map [("type", .text p.flaw.code), ("loc", .list (p.place.map stepDoc))]

/-- The details of a refusal. -/
def detail {R : Type} : Refusal → Doc R
  | unknownRoute => .text "Not Found"
  | wrongMethod => .text "Method Not Allowed"
  | unknownWord => .text "Word not found"
  | unknownIngredient => .text "Ingredient not found"
  | unknownSession => .text "Session not found"
  | notUnderstood cause => .text cause.message
  | notSpeakable cause => .text cause.message
  | flawed problems => .list (problems.map problemDoc)

end Refusal

/-- An answer: a document, or the reason why there is none. -/
abbrev Answer (R : Type) := Except Refusal (Doc R)

/-! ## 3. Bodies -/

/-- Problems of a body: where a record was asked for, anything with named parts would do. -/
def bodyProblem (p : Problem) : Problem :=
  { place := .field "body" :: p.place
    flaw := if p.flaw = .notRecord then .notTagged else p.flaw }

/-- Reads the body of a request. -/
def Request.readBody {R α : Type} (q : Request R)
    (read : List (String × Doc R) → Check α) : Except Refusal α :=
  let checked : Check α := match q.body with
    | none | some .null => .fail .missing
    | some d => d.asRecord.andThen read
  match checked with
  | .sound a => .ok a
  | .flawed problems => .error (.flawed (problems.map bodyProblem))

/-! ## 4. The service -/

/-- What a service works with. The words of negotiating machines come from files of their own,
which may be unusable. -/
structure Service (R : Type) where
  lexicon : Lexicon
  config : Config R
  shared : Except Fault Lexicon
  sessionName : Nat → String
  spareSeed : Int := 0

/-- What a service changes: the mind of its machine, the records, and the number of negotiations
so far. -/
structure Books (R : Type) where
  mind : Mind R
  transcript : Transcript R := {}
  opened : Nat := 0

namespace Service

variable {R : Type} [Scalar R]

/-- The entry of a word. -/
def word (s : Service R) (text : String) : Answer R :=
  match s.lexicon.lookup? text with
  | some entry => .ok (.map [("word", .text text), ("entry", entry.toDoc)])
  | none => .error .unknownWord

/-- The word of an ingredient or category. -/
def ingredientWord (s : Service R) (name : String) : Answer R :=
  match s.lexicon.taxonomy.find? name with
  | some i => .ok (.map [("ingredient", .text i.name),
      ("word", Doc.optional .text (s.lexicon.taxonomy.wordFor? i))])
  | none => .error .unknownIngredient

/-- What the machine understands of a phrase. -/
def understanding (s : Service R) (text : String) (probabilistic : Bool) :
    Act (Books R) (Answer R) := do
  let grammar : Grammar := ⟨s.lexicon, s.config.retryBudget⟩
  let parse : Act (Books R) (Reading R) :=
    Act.on (·.mind) (fun m b => { b with mind := m }) (grammar.parse probabilistic text)
  match ← parse.attempt with
  | .ok reading => return .ok reading.toDoc
  | .error (.unparsed cause) => return .error (.notUnderstood cause)
  | .error e => Act.fault e

/-- How the machine would say an operation. -/
def speaking (s : Service R) (x : Operation) : Except Fault (Answer R) :=
  match x.encode s.lexicon with
  | .ok words => .ok (.ok (.map [("text", .text (Phrase.render words)),
      ("subtitles", .text (Phrase.subtitles words))]))
  | .error (.missing cause) => .ok (.error (.notSpeakable cause))
  | .error e => .error e

/-- Turns as a document. -/
def turnsDoc (rs : List (TurnRecord R)) : Doc R := .list (rs.map TurnRecord.toDoc)

/-- The turns of a negotiation. -/
def turns (t : Transcript R) (session : String) : Except Fault (Answer R) :=
  (t.session session).map fun rs =>
    if rs.isEmpty then .error .unknownSession else .ok (turnsDoc rs)

/-- The last turns, fifty unless another number is asked for. -/
def recentTurns (t : Transcript R) (limit : Option String) : Except Fault (Answer R) :=
  let wanted : Check Int := match limit with
    | none => .sound 50
    | some text => Doc.asInt (.text text : Doc R)
  match wanted with
  | .sound n => (t.recent n).map fun rs => .ok (turnsDoc rs)
  | .flawed problems => .ok (.error (.flawed (problems.map fun p =>
      { p with place := .field "query" :: .field "limit" :: p.place })))

/-- Lets two newborn machines negotiate. -/
def negotiate (s : Service R) (seed : Option Int) : Act (Books R) (Doc R) := do
  let lex ← Act.ofExcept s.shared
  let pair ← Act.ofExcept (Negotiation.newborn lex s.config (seed.getD s.spareSeed))
  let session := s.sessionName (← get).opened
  let agent : Agent R := ⟨lex, s.config, 1.0, session⟩
  let (outcome, after) := Negotiation.run agent agent pair
  modify fun b =>
    { b with transcript := b.transcript.extend after.records, opened := b.opened + 1 }
  let outcome ← Act.ofExcept outcome
  let turns ← Act.ofExcept ((← get).transcript.session session)
  return .map [("outcome", outcome.toDoc), ("turns", turnsDoc turns)]

/-- Does what a route and its body ask for. -/
def follow (s : Service R) (q : Request R) : Route → Act (Books R) (Answer R)
  | .word text => return s.word text
  | .ingredientWord name => return s.ingredientWord name
  | .understanding =>
    let asked := q.readBody fun fs =>
      Prod.mk <$> Doc.field fs "text" Doc.asText
        <*> Doc.fieldOr fs "probabilistic" Doc.asFlag false
    match asked with
    | .ok (text, probabilistic) => s.understanding text probabilistic
    | .error e => return .error e
  | .speaking =>
    match q.readBody fun fs => Doc.field fs "operation" Operation.ofDoc with
    | .ok x => Act.ofExcept (s.speaking x)
    | .error e => return .error e
  | .personality => return .ok (← get).mind.personality.toDoc
  | .negotiations =>
    match q.readBody fun fs => Doc.fieldOr fs "seed" (Doc.asOptional Doc.asInt) none with
    | .ok seed => do return .ok (← s.negotiate seed)
    | .error e => return .error e
  | .recentTurns => do
    Act.ofExcept (recentTurns (← get).transcript (q.address.value? "limit"))
  | .turns session => do Act.ofExcept (turns (← get).transcript session)

/-- Answers a request. -/
def handle (s : Service R) (q : Request R) : Act (Books R) (Answer R) :=
  match Route.ofAddress? q.address with
  | none => return .error .unknownRoute
  | some route => if q.method = route.method then s.follow q route else return .error .wrongMethod

end Service

end DeliTalk
