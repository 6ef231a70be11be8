import DeliTalk.Document.Reading
import DeliTalk.Document.Source

/-!
# Configuration of a machine

How often a phrase is read again, how large frames are, how long a negotiation may take, how much
is in stock. A file that is missing gives the defaults.
-/

namespace DeliTalk

/-- The tunables of one machine. -/
structure Config (R : Type) where
  retryBudget : Int
  frameSize : Int
  port : Int
  peers : List String
  connectTimeout : R
  turnTimeout : R
  maxTurns : Int
  maxFailures : Int
  pace : R
  minFillings : Int
  maxFillings : Int
  stockPerIngredient : Int
  historyLimit : Int
  vocabularyLearning : Bool
  dictionaryPath : Option String
  ingredientsPath : Option String
  personalityPath : String
  transcriptPath : String

namespace Config

variable {R : Type} [Scalar R]

/-- The configuration one gets without further wishes. -/
def standard : Config R where
  retryBudget := 30
  frameSize := 4096
  port := 34222
  peers := []
  connectTimeout := 0.3
  turnTimeout := 30.0
  maxTurns := 40
  maxFailures := 6
  pace := 0.0
  minFillings := 1
  maxFillings := 5
  stockPerIngredient := 10
  historyLimit := 10
  vocabularyLearning := false
  dictionaryPath := none
  ingredientsPath := none
  personalityPath := "personality.yml"
  transcriptPath := ":memory:"

/-- Reads a count of attempts, which is at least one. -/
def attemptsOfDoc (d : Doc R) : Check Int :=
  (Doc.asInt d).require (fun n => decide (1 ≤ n)) .tooLow

/-- Reads a configuration. -/
def ofDoc (d : Doc R) : Check (Config R) :=
  d.asRecord.andThen fun fs =>
    let path (name : String) : Check (Option String) :=
      Doc.fieldOr fs name (Doc.asOptional Doc.asText) none
    let int (name : String) (default : Int) : Check Int := Doc.fieldOr fs name Doc.asInt default
    let scalar (name : String) (default : R) : Check R := Doc.fieldOr fs name Doc.asScalar default
    Config.mk <$> Doc.fieldOr fs "parse_retry_budget" attemptsOfDoc 30
      <*> int "frame_size" 4096 <*> int "port" 34222
      <*> Doc.fieldOr fs "peers" (Doc.asListOf Doc.asText) []
      <*> scalar "connect_timeout_seconds" 0.3 <*> scalar "turn_timeout_seconds" 30.0
      <*> int "max_turns" 40 <*> int "max_failures" 6 <*> scalar "pace_seconds" 0.0
      <*> int "min_fillings" 1 <*> int "max_fillings" 5 <*> int "stock_per_ingredient" 10
      <*> int "history_limit" 10 <*> Doc.fieldOr fs "vocabulary_learning" Doc.asFlag false
      <*> path "dictionary_path" <*> path "ingredients_path"
      <*> Doc.fieldOr fs "personality_path" Doc.asText "personality.yml"
      <*> Doc.fieldOr fs "transcript_db" Doc.asText ":memory:"

/-- A configuration as a document. -/
def toDoc (c : Config R) : Doc R :=
  .map [("parse_retry_budget", .int c.retryBudget), ("frame_size", .int c.frameSize),
    ("port", .int c.port), ("peers", .texts c.peers),
    ("connect_timeout_seconds", .num c.connectTimeout),
    ("turn_timeout_seconds", .num c.turnTimeout), ("max_turns", .int c.maxTurns),
    ("max_failures", .int c.maxFailures), ("pace_seconds", .num c.pace),
    ("min_fillings", .int c.minFillings), ("max_fillings", .int c.maxFillings),
    ("stock_per_ingredient", .int c.stockPerIngredient), ("history_limit", .int c.historyLimit),
    ("vocabulary_learning", .flag c.vocabularyLearning),
    ("dictionary_path", Doc.optional .text c.dictionaryPath),
    ("ingredients_path", Doc.optional .text c.ingredientsPath),
    ("personality_path", .text c.personalityPath), ("transcript_db", .text c.transcriptPath)]

/-- The configuration a file holds; without a file, or where it is missing, the standard one. -/
def load (source : Option (Source R)) : Except Fault (Config R) :=
  match source with
  | none | some .absent => .ok standard
  | some .garbled => .error .malformed
  | some (.document d) => (ofDoc d.orEmpty).orFault

end Config

end DeliTalk
