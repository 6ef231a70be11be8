import DeliTalk.Message.Frame

/-!
# Lines: how frames get from one end to the other

A pair of ends passes frames through two queues; an empty frame tells the other end that one hung
up. A stream has frames in a row of bytes coming in, and counts the bytes going out.

* `Pair`: two ends in one place. `Pair.send`, `Pair.receive`, `Pair.close`.
* `Wire`: one end of a stream. `Wire.feed`, `Wire.finish`, `Wire.receive`, `Wire.send`.
-/

namespace DeliTalk

/-- A frame, as bytes. -/
abbrev Bytes := List UInt8

/-- One of two ends. -/
inductive End where
  | left | right
deriving Repr, DecidableEq

/-- Two ends with the frames on their way to each of them. -/
structure Pair where
  frameSize : Int
  toLeft : List Bytes := []
  toRight : List Bytes := []

namespace Pair

/-- Puts a frame on its way from one end. -/
def push (p : Pair) (sender : End) (frame : Bytes) : Pair :=
  match sender with
  | .left => { p with toRight := p.toRight ++ [frame] }
  | .right => { p with toLeft := p.toLeft ++ [frame] }

/-- Sends a message from one end. -/
def send (R : Type) (p : Pair) (sender : End) (m : Message) : Except Fault Pair :=
  (Frame.encode R p.frameSize m).map (p.push sender)

/-- Hangs up at one end. -/
def close (p : Pair) (sender : End) : Pair := p.push sender []

/-- The next frame on its way to one end, and the pair without it. -/
def next (p : Pair) (receiver : End) : Option Bytes × Pair :=
  match receiver with
  | .left => (p.toLeft.head?, { p with toLeft := p.toLeft.tail })
  | .right => (p.toRight.head?, { p with toRight := p.toRight.tail })

/-- The next message at one end; with no frame on its way the wait is in vain. -/
def receive (R : Type) [Scalar R] (p : Pair) (receiver : End) : Except LineFault Message × Pair :=
  match p.next receiver with
  | (none, p) => (.error .timedOut, p)
  | (some frame, p) => (Frame.decode R frame, p)

end Pair

/-- One end of a stream: the bytes that came in, whether more can come, the number of bytes sent,
and whether the connection is broken. -/
structure Wire where
  frameSize : Int
  incoming : Bytes := []
  ended : Bool := false
  written : Nat := 0
  broken : Bool := false

namespace Wire

/-- More bytes come in, as long as they can. -/
def feed (w : Wire) (bytes : Bytes) : Except Fault Wire :=
  if w.ended then .error .feedAfterEnd else .ok { w with incoming := w.incoming ++ bytes }

/-- No more bytes come in. -/
def finish (w : Wire) : Wire := { w with ended := true }

/-- The next message. Too few bytes are waited for in vain; when no more can come they are lost.
A frame of less than no bytes cannot be asked for. -/
def receive (R : Type) [Scalar R] (w : Wire) : Except Fault Message × Wire :=
  let size := w.frameSize.toNat
  if w.frameSize < 0 then (.error .negativeFrame, w)
  else if size ≤ w.incoming.length then
    ((Frame.decode R (w.incoming.take size)).mapError .line,
      { w with incoming := w.incoming.drop size })
  else if w.ended then
    (.error (.line (.peerGone w.incoming.length size)), { w with incoming := [] })
  else (.error (.line .timedOut), w)

/-- Sends a message. On a broken connection its bytes are written and lost. -/
def send (R : Type) (w : Wire) (m : Message) : Except Fault Unit × Wire :=
  match Frame.encode R w.frameSize m with
  | .error e => (.error e, w)
  | .ok frame =>
    let w := { w with written := w.written + frame.length }
    if w.broken then (.error (.line (.sendFailed "reset")), w) else (.ok (), w)

end Wire

end DeliTalk
