import DeliTalk.Operation.Document
import DeliTalk.Personality.Document
import DeliTalk.Sentence.Comprehension

/-!
# The grammar of one listener: from text to an operation

A phrase is annotated and then understood. Annotation is a look into the lexicon, or a draw of a
sense for every word from the listener's clouds. Draws are repeated until some reading makes a
sentence or the attempts run out. A word that is unknown but starts like an ingredient's word is
guessed to be a noun.

* `Grammar.annotate`, `Grammar.imagineSenses`: the two ways of annotating.
* `Grammar.parse`: a reading, or why there is none.
-/

namespace DeliTalk

/-- A lexicon, and how often a phrase is read again when nothing made sense. -/
structure Grammar where
  lexicon : Lexicon
  retryBudget : Int

/-- What was understood of a phrase: the operation, the skills used, the senses the words were
read with, and the attempts it took. -/
structure Reading (R : Type) where
  operation : Operation
  skills : Language R
  lex : List LexedWord
  attempts : Nat

/-- A reading as a document. -/
def Reading.toDoc {R : Type} (r : Reading R) : Doc R :=
  .map [("operation", r.operation.toDoc), ("skills", r.skills.toDoc),
    ("lex", .list (r.lex.map LexedWord.toDoc)), ("attempts", .int r.attempts)]

namespace Grammar

variable {R : Type} [Scalar R]

/-- One word, looked up. -/
def tag (g : Grammar) (w : Word) : Tagged :=
  let text := w.text
  match g.lexicon.lookup? text with
  | some entry => ⟨w, some entry.part, some entry⟩
  | none =>
    let root := g.lexicon.taxonomy.root.morpheme
    if 1 < w.syllables.length && root.toList.isPrefixOf text.toList then ⟨w, some .noun, none⟩
    else ⟨w, none, none⟩

/-- A phrase, looked up. -/
def annotate (g : Grammar) (phrase : List Word) : List Tagged := phrase.map g.tag

/-- A phrase with a sense for every word, drawn from the listener's clouds. -/
def imagineSenses (entries : List Entry) : List Word → Act (Mind R) (List Tagged)
  | [] => return []
  | w :: rest => do
    let entry ← Mind.sampleSense w.text entries
    return ⟨w, some entry.part, some entry⟩ :: (← imagineSenses entries rest)

/-- What a listener makes of an annotated phrase. -/
def sentence (g : Grammar) (ts : List Tagged) : Act (Mind R) (Option (Understood R)) := do
  let skills := (← get).personality.language
  Mind.lucky (Sentence.understand g.lexicon.taxonomy skills ts)

/-- Whether a fault only spoils one attempt. -/
def isPassing : Fault → Bool
  | .missing _ | .unsupportedVerb _ _ => true
  | _ => false

/-- One attempt: the words as they were read, and what they meant. -/
def tryOnce (g : Grammar) (probabilistic : Bool) (phrase : List Word) :
    Act (Mind R) (Option (List Tagged × Understood R)) := do
  let tagged ← if probabilistic then imagineSenses g.lexicon.uniqueEntries phrase
    else pure (g.annotate phrase)
  match ← (g.sentence tagged).attempt with
  | .ok understood => return understood.map fun u => (tagged, u)
  | .error e => if isPassing e then return none else Act.fault e

/-- The words of a reading with their senses. -/
def lexed (ts : List Tagged) : List LexedWord := ts.map fun t => ⟨t.text, t.entry⟩

/-- The first attempt that makes sense, counted from a given one. -/
def tryAgain (g : Grammar) (probabilistic : Bool) (phrase : List Word) :
    (attempt remaining : Nat) → Act (Mind R) (Option (Reading R))
  | _, 0 => return none
  | attempt, remaining + 1 => do
    match ← g.tryOnce probabilistic phrase with
    | some (tagged, x, skills) => return some ⟨x, skills, lexed tagged, attempt⟩
    | none => tryAgain g probabilistic phrase (attempt + 1) remaining

/-- What a listener makes of a phrase. -/
def parse (g : Grammar) (probabilistic : Bool) (text : String) : Act (Mind R) (Reading R) := do
  match Phrase.read text with
  | .error e => Act.fault (.unparsed (.misspelled e))
  | .ok phrase =>
    let budget := if probabilistic then g.retryBudget else 1
    match ← g.tryAgain probabilistic phrase 1 budget.toNat with
    | some reading => return reading
    | none => Act.fault (.unparsed (.exhausted text budget))

end Grammar

end DeliTalk
