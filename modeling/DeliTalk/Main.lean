import DeliTalk.CommandLine
import DeliTalk.Decimal.Shortest
import DeliTalk.Document.Json
import DeliTalk.Document.Json.Writer
import DeliTalk.Lexicon.Assembly

/-!
# The program

Reads the command line and the files it names, holds the negotiations it asks for, and prints
their outcomes. Files are JSON documents.
-/

namespace DeliTalk.Main

open Decimal

/-- How deeply the values of a file may be nested. -/
def depthLimit : Nat := 1000

/-- Outcomes are printed with an indent of two, in plain characters. -/
def layout : Json.Layout Float where
  number := shortest
  asciiOnly := true
  indent := some 2

/-- What is in a file: an empty one says nothing. -/
def sourceOf (text : String) : Source Float :=
  if text.trimAscii.isEmpty then .document .null
  else
    match (Json.read? depthLimit text.toList : Option (Doc Float)) with
    | some d => .document d
    | none => .garbled

/-- Opens a file. -/
def openSource (path : String) : IO (Source Float) := do
  try
    return sourceOf (← IO.FS.readFile path)
  catch _ => return .absent

/-- Opens a file if there is one to open. -/
def openNamed (path : Option String) : IO (Option (Source Float)) :=
  match path with
  | none | some "" => return none
  | some path => some <$> openSource path

/-- A name no other negotiation has: thirty-two random digits in base sixteen. -/
def freshName : IO String := do
  let digits ← (List.replicate 32 ()).mapM fun _ => IO.rand 0 15
  return String.ofList (digits.map Text.hexDigit)

/-- Holds the negotiations that were asked for and prints how they ended. -/
def negotiate (o : CommandLine.Options) : IO UInt32 := do
  let file ← match o.config.value? with
    | none => pure none
    | some path => some <$> openSource path
  match Config.load file with
  | .error e => fail e
  | .ok config =>
    match Lexicon.assemble (← openNamed config.ingredientsPath)
        (← openNamed config.dictionaryPath) with
    | .error e => fail e
    | .ok lexicon =>
      let sessions ← (List.replicate o.runCount.toNat ()).mapM fun _ => freshName
      let seed ← match o.seed.value? with
        | some n => pure n
        | none => (fun (n : Nat) => (n : Int)) <$> IO.rand 0 0x3fffffffffffffff
      match (CommandLine.outcomes lexicon config seed sessions : Except Fault _) with
      | .error e => fail e
      | .ok outcomes =>
        for outcome in outcomes do
          IO.println (Json.render layout outcome.toDoc)
        return 0
where
  /-- Reports a fault. -/
  fail (e : Fault) : IO UInt32 := do
    IO.eprintln ("error: " ++ e.message?.getD "the configuration or its files cannot be used")
    return 1

end DeliTalk.Main

/-- Runs the program. -/
def main (arguments : List String) : IO UInt32 := do
  match DeliTalk.CommandLine.read arguments with
  | .ok options =>
    if options.runCount = 0 then
      IO.eprintln "Nothing to do: ask for negotiations with --local."
      return 1
    else DeliTalk.Main.negotiate options
  | .error stop =>
    match stop with
    | .helpWanted => IO.println DeliTalk.CommandLine.usage
    | .misused cause =>
      IO.eprintln DeliTalk.CommandLine.usage
      IO.eprintln ("delitalk: error: " ++ cause.message)
    return stop.status.toUInt32
