import DeliTalk.Document.Numeral
import DeliTalk.Session.Negotiation
import DeliTalk.Text.Quoted

/-!
# The command line

Three options take a value each: the configuration file, the number of negotiations to hold in
one place, and the seed they start from. A name may be cut short as long as it stays the only
one that starts that way, and the value may follow after an equals sign. What looks like a
negative number is a value.

* `CommandLine.read`: the options of a command line, or why the program stops there.
* `CommandLine.outcomes`: the negotiations the options ask for.
-/

namespace DeliTalk.CommandLine

/-! ## 1. Options -/

/-- The switches there are. -/
inductive Switch where
  | help | config | runs | seed
deriving Repr, DecidableEq

namespace Switch

/-- Every spelling of every switch. -/
def spellings : List (String × Switch) :=
  [("-h", help), ("--help", help), ("--config", config), ("--local", runs), ("--seed", seed)]

/-- The switch of a full spelling. -/
def ofSpelling? (text : String) : Option Switch := Register.find? text spellings

/-- How a switch is called in messages. -/
def label : Switch → String
  | help => "-h/--help"
  | config => "--config"
  | runs => "--local"
  | seed => "--seed"

end Switch

/-- What became of an option: it was not mentioned, it was emptied by two hyphens after its equals
sign, or it was given a value. -/
inductive Setting (α : Type) where
  | unset
  | emptied
  | given (value : α)
deriving Repr, DecidableEq

/-- The value of an option, if it was given one. -/
def Setting.value? {α : Type} : Setting α → Option α
  | given value => some value
  | unset | emptied => none

/-- What the command line asks for. -/
structure Options where
  config : Setting String := .unset
  runs : Setting Int := .unset
  seed : Setting Int := .unset
deriving Repr, DecidableEq

/-- The number of negotiations asked for. -/
def Options.runCount (o : Options) : Int := o.runs.value?.getD 0

/-- What can be wrong with a command line. -/
inductive Misuse where
  | ambiguous (text : String) (matching : List String)
  | lacksValue (switch : Switch)
  | superfluousValue (switch : Switch) (value : String)
  | notInteger (switch : Switch) (value : String)
  | unrecognized (texts : List String)
deriving Repr, DecidableEq

/-- The wording of a misuse. -/
def Misuse.message : Misuse → String
  | ambiguous text matching =>
    "ambiguous option: " ++ text ++ " could match " ++ ", ".intercalate matching
  | lacksValue s => "argument " ++ s.label ++ ": expected one argument"
  | superfluousValue s value =>
    "argument " ++ s.label ++ ": ignored explicit argument " ++ Text.quoted value
  | notInteger s value => "argument " ++ s.label ++ ": invalid int value: " ++ Text.quoted value
  | unrecognized texts => "unrecognized arguments: " ++ " ".intercalate texts

/-- Why the program stops at its command line: help is wanted, or it was misused. -/
inductive Stop where
  | helpWanted
  | misused (cause : Misuse)
deriving Repr, DecidableEq

/-- The status the program ends with. -/
def Stop.status : Stop → Nat
  | helpWanted => 0
  | misused _ => 2

/-! ## 2. Single arguments -/

/-- What one argument is: a switch and what follows its equals sign, the short call for help with
further letters, something unknown, a value, or the mark that ends the switches. -/
inductive Argument where
  | switch (switch : Switch) (attached : Option String)
  | cluster (letters : List Char)
  | unknown (text : String)
  | value (text : String)
  | divider
deriving Repr, DecidableEq

/-- What stands before the first equals sign, and what follows it if there is one. -/
def attachment (cs : List Char) : List Char × Option String :=
  match cs.dropWhile (· ≠ '=') with
  | [] => (cs, none)
  | _ :: rest => (cs.takeWhile (· ≠ '='), some (String.ofList rest))

/-- A text without a line end at its end. -/
def withoutLineEnd (cs : List Char) : List Char :=
  if cs.getLast? = some '\n' then cs.dropLast else cs

/-- Whether a text looks like a negative number. -/
def looksNegative : List Char → Bool
  | '-' :: tail =>
    let isDigit : Char → Bool := fun c => (Text.digitValue? c).isSome
    let rest := withoutLineEnd tail
    match rest.dropWhile isDigit with
    | [] => rest ≠ []
    | '.' :: places => places ≠ [] && places.all isDigit
    | _ => false
  | _ => false

/-- The spellings a long name is the beginning of. -/
def begun (cs : List Char) : List (String × Switch) :=
  Switch.spellings.filter fun p => cs.isPrefixOf p.1.toList

/-- An argument that is neither a full spelling nor begins one. -/
def plain (text : String) : Argument :=
  let cs := text.toList
  if looksNegative cs || cs.contains ' ' then .value text else .unknown text

/-- An argument that starts with two hyphens and is no full spelling. -/
def classifyLong (text : String) : Except Misuse Argument :=
  let (name, attached) := attachment text.toList
  match begun name with
  | [] => .ok (plain text)
  | [(_, s)] => .ok (.switch s attached)
  | many => .error (.ambiguous text (many.map (·.1)))

/-- A full spelling with what is attached to it. What is attached to the short call for help is
read as further letters. -/
def attachedTo (s : Switch) (isLong : Bool) : Option String → Argument
  | none => .switch s none
  | some value =>
    if isLong ∨ value = "" then .switch s (some value) else .cluster value.toList

/-- An argument that starts with one hyphen and is no full spelling. -/
def classifyShort (text : String) : Argument :=
  match text.toList with
  | '-' :: 'h' :: letters => .cluster letters
  | _ => plain text

/-- What an argument is. -/
def classify (text : String) : Except Misuse Argument :=
  match text.toList with
  | [] | ['-'] => .ok (.value text)
  | first :: second :: _ =>
    let (name, attached) := attachment text.toList
    if first ≠ '-' then .ok (.value text)
    else
      match Switch.ofSpelling? text, Switch.ofSpelling? (String.ofList name) with
      | some s, _ => .ok (.switch s none)
      | none, some s => .ok (attachedTo s (second = '-') attached)
      | none, none => if second = '-' then classifyLong text else .ok (classifyShort text)
  | _ => .ok (.value text)

/-- What the arguments are. After two hyphens on their own everything is a value. -/
def classifyAll : List String → Except Misuse (List Argument)
  | [] => .ok []
  | text :: rest =>
    if text = "--" then .ok (.divider :: rest.map .value)
    else do
      let a ← classify text
      return a :: (← classifyAll rest)

/-! ## 3. The whole line -/

/-- Takes the value of a switch. -/
def Options.take (o : Options) (s : Switch) (value : String) : Except Stop Options :=
  match s, Numeral.wholeNumber value with
  | .config, _ => .ok { o with config := .given value }
  | .runs, .ok n => .ok { o with runs := .given n }
  | .seed, .ok n => .ok { o with seed := .given n }
  | s, _ => .error (.misused (.notInteger s value))

/-- Empties the option of a switch. -/
def Options.empty (o : Options) : Switch → Options
  | .config => { o with config := .emptied }
  | .runs => { o with runs := .emptied }
  | .seed => { o with seed := .emptied }
  | .help => o

/-- Takes the value after an equals sign. -/
def Options.takeAttached (o : Options) (s : Switch) (value : String) : Except Stop Options :=
  if value = "--" then .ok (o.empty s) else o.take s value

/-- The short call for help with further letters: more calls for help change nothing, anything
else does not belong there. -/
def clustered (letters : List Char) : Stop :=
  match letters.dropWhile (· = 'h') with
  | [] => .helpWanted
  | rest => .misused (.superfluousValue .help (String.ofList rest))

/-- Collects the options and what belongs to none of them. -/
def collect : List Argument → Options → (extras : List String) → Except Stop Options
  | [], o, [] => .ok o
  | [], _, extras => .error (.misused (.unrecognized extras))
  | .value text :: rest, o, extras => collect rest o (extras ++ [text])
  | .unknown text :: rest, o, extras => collect rest o (extras ++ [text])
  | .divider :: rest, o, extras => collect rest o (extras ++ ["--"])
  | .cluster letters :: _, _, _ => .error (clustered letters)
  | .switch .help none :: _, _, _ => .error .helpWanted
  | .switch .help (some value) :: _, _, _ => .error (.misused (.superfluousValue .help value))
  | .switch s (some value) :: rest, o, extras => do
    collect rest (← o.takeAttached s value) extras
  | .switch s none :: .value value :: rest, o, extras => do
    collect rest (← o.take s value) extras
  | .switch s none :: _, _, _ => .error (.misused (.lacksValue s))

/-- The options of a command line. -/
def read (texts : List String) : Except Stop Options :=
  match classifyAll texts with
  | .ok arguments => collect arguments {} []
  | .error cause => .error (.misused cause)

/-- How the program is used. -/
def usage : String := "usage: delitalk [-h] [--config CONFIG] [--local LOCAL] [--seed SEED]"

/-! ## 4. What the options ask for -/

/-- The outcomes of the negotiations under the given names; a fault in one of them is the end. -/
def outcomes {R : Type} [Scalar R] (lex : Lexicon) (c : Config R) (seed : Int)
    (sessions : List String) : Except Fault (List (Outcome R)) := do
  let pair ← Negotiation.newborn lex c seed
  (Negotiation.series lex c sessions pair).1.mapM (·.1)

end DeliTalk.CommandLine
