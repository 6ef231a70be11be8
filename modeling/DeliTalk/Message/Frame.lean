import DeliTalk.Message
import DeliTalk.Fault
import DeliTalk.Document.Json
import DeliTalk.Document.Json.Writer

/-!
# Frames: one message in a fixed number of bytes

A frame is the text of a message, without its absent parts, filled up with zero bytes. The
receiver takes the zeros off again before it reads the message.

* `Frame.encode`: the frame of a message, or why there is none.
* `Frame.decode`: the message of a frame, or what is wrong with it.
-/

namespace DeliTalk.Frame

/-- How deeply values may be nested in a frame. -/
def depthLimit : Nat := 200

/-- How messages are laid out: without blanks, and with every character that needs no escape as
it is. Messages hold no numbers. -/
def layout (R : Type) : Json.Layout R where
  number := fun _ => "0"

/-- The text of a message. -/
def body (R : Type) (m : Message) : List Char :=
  Json.write (layout R) 0 (m.toDoc : Doc R).withoutNulls

/-- The bytes of a text. -/
def bytesOf (cs : List Char) : List UInt8 := (String.ofList cs).toUTF8.toList

/-- What the size of a frame stays below. -/
def sizeBound : Int := 0x8000000000000000

/-- The frame of a message. -/
def encode (R : Type) (size : Int) (m : Message) : Except Fault (List UInt8) :=
  let bytes := bytesOf (body R m)
  if size < (bytes.length : Int) then .error (.line (.tooLarge bytes.length size))
  else if sizeBound ≤ size then .error .oversized
  else .ok (bytes ++ List.replicate (size.toNat - bytes.length) 0)

/-- The bytes of a frame without the zeros at its end. -/
def trimmed (bytes : List UInt8) : List UInt8 := (bytes.reverse.dropWhile (· == 0)).reverse

/-- The text of some bytes. -/
def textOf? (bytes : List UInt8) : Option String :=
  String.fromUTF8? ⟨bytes.toArray⟩

/-- The document of some bytes. -/
def docOf? (R : Type) [Scalar R] (bytes : List UInt8) : Option (Doc R) := do
  Json.read? depthLimit (← textOf? bytes).toList

/-- The message of a frame. -/
def decode (R : Type) [Scalar R] (bytes : List UInt8) : Except LineFault Message :=
  let bytes := trimmed bytes
  if bytes.isEmpty then .error .emptyFrame
  else
    match docOf? R bytes with
    | none => .error (.malformed [⟨[], .malformed⟩])
    | some d =>
      match Message.ofDoc d with
      | .sound m => .ok m
      | .flawed problems => .error (.malformed problems)

end DeliTalk.Frame
