import DeliTalk.Word
import DeliTalk.Lexicon.Entry

/-!
# What can go wrong

Every way in which a step of the program can fail, by cause. The wording of each cause is in one
place (`Fault.message?`); causes that are only ever told apart by their kind have no wording.

* `Missing`: something the language has no word or no ingredient for.
* `MenuFault`: a menu or dictionary that cannot be used.
* `LineFault`: a frame that could not be sent, received or understood.
* `Fault`: all of them together.
-/

namespace DeliTalk

/-- Something the language has no word or no ingredient for. -/
inductive Missing where
  | usage (usage : Usage)
  | ingredientWord (name : String)
  | numberWord (value : Int)
  | notIngredient (word : String)
  | unknownIngredient (word : String)
deriving Repr, DecidableEq

/-- The wording of what is missing. -/
def Missing.message : Missing → String
  | usage u => "No word with function " ++ u.name
  | ingredientWord name => "No word for ingredient " ++ name
  | numberWord n => "No word for the number " ++ toString n
  | notIngredient word => word ++ " is not an ingredient"
  | unknownIngredient word => "No ingredient for " ++ word

/-- Why a menu or a dictionary cannot be used. -/
inductive MenuFault where
  | noBase
  | thinBread (name : String)
  | noFillings
  | unreadable
  | malformed
  | flawed (problems : List Problem)
deriving Repr, DecidableEq

/-- The wording of a fault in a menu, if it has one of its own. -/
def MenuFault.message? : MenuFault → Option String
  | noBase => some "Taxonomy has no 'base' category"
  | thinBread name => some ("Base '" ++ name ++ "' must list a bottom and a top")
  | noFillings => some "Taxonomy has no fillings"
  | unreadable | malformed | flawed _ => none

/-- Why a frame could not be sent, received or understood. -/
inductive LineFault where
  | timedOut
  | emptyFrame
  | malformed (problems : List Problem)
  | peerGone (received expected : Nat)
  | sendFailed (reason : String)
  | tooLarge (size : Nat) (frame : Int)
deriving Repr, DecidableEq

/-- The wording of a fault on the line, if it has one of its own. -/
def LineFault.message? : LineFault → Option String
  | timedOut => some "Timed out waiting for peer"
  | emptyFrame => some "Empty frame"
  | malformed _ => none
  | peerGone received expected =>
    some ("Peer went away: " ++ toString received ++ " bytes read on a total of " ++
      toString expected ++ " expected bytes")
  | sendFailed reason => some ("Send failed: " ++ reason)
  | tooLarge size frame =>
    some ("Message is " ++ toString size ++ " bytes, frame holds " ++ toString frame)

/-- Why a heard phrase has no meaning. -/
inductive Unparsed where
  | misspelled (cause : Misspelling)
  | exhausted (text : String) (attempts : Int)
deriving Repr, DecidableEq

/-- The wording of a phrase without a meaning. -/
def Unparsed.message : Unparsed → String
  | misspelled cause => cause.message
  | exhausted text attempts =>
    "No parse for " ++ Text.quoted text ++ " after " ++ toString attempts ++ " attempt(s)"

/-- How much of a quoted text a message shows. -/
def quoteLimit : Nat := 200

/-- The wording of a text that is not read as a whole number. Of a long text only the beginning
is shown. -/
def unreadMessage : Numeral.Unread → String
  | .noNumber text =>
    "invalid literal for int() with base 10: " ++
      String.ofList ((Text.quoted text).toList.take quoteLimit)
  | .overlong digits =>
    "Exceeds the limit (" ++ toString Numeral.digitLimit ++
      " digits) for integer string conversion: value has " ++ toString digits ++
      " digits; use sys.set_int_max_str_digits() to increase the limit"

/-- Everything that can go wrong. -/
inductive Fault where
  | misspelling (cause : Misspelling)
  | unreadableNumber (cause : Numeral.Unread)
  | unknownUsage (name : String)
  | unknownLetter
  | missing (cause : Missing)
  | unsupportedVerb (word : String) (usage : Option Usage)
  | unparsed (cause : Unparsed)
  | menu (cause : MenuFault)
  | line (cause : LineFault)
  | flawed (problems : List Problem)
  | malformed
  | notDictionary
  | emptyChoice
  | weightless
  | boundless
  | noLogarithm
  | nothingToRetract
  | oversized
  | negativeFrame
  | feedAfterEnd
deriving Repr, DecidableEq

/-- The wording of a fault, if it has one. -/
def Fault.message? : Fault → Option String
  | misspelling cause => some cause.message
  | unreadableNumber cause => some (unreadMessage cause)
  | unknownUsage name => some (Text.quoted name ++ " is not a valid WordFunction")
  | unknownLetter => some "substring not found"
  | missing cause => some cause.message
  | unsupportedVerb word usage =>
    some ("No operation for verb " ++ word ++ " (" ++ (usage.map Usage.label).getD "None" ++ ")")
  | unparsed cause => some cause.message
  | menu cause => cause.message?
  | line cause => cause.message?
  | weightless => some "Total of weights must be greater than zero"
  | boundless => some "Total of weights must be finite"
  | noLogarithm => some "math domain error"
  | negativeFrame => some "readexactly size can not be less than zero"
  | flawed _ | malformed | notDictionary | emptyChoice | nothingToRetract | oversized
  | feedAfterEnd => none

/-- A value that may have flaws; all of them together are a fault. -/
def Check.orFault {α : Type} : Check α → Except Fault α
  | .sound a => .ok a
  | .flawed problems => .error (.flawed problems)

end DeliTalk
