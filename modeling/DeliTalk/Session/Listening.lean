import DeliTalk.Session.Customer
import DeliTalk.Session.Server

/-!
# One machine listening to a given row of frames

A machine takes frame after frame until its session is over; when no frame is left it waits in
vain.
-/

namespace DeliTalk

variable {R : Type} [Scalar R]

/-- Takes frame after frame until the session is over. -/
def listen {σ β : Type} (a : Agent R) (receive : σ → Message → Act (Seat R) (Progress σ β)) :
    List Bytes → σ → Act (Seat R) β
  | [], _ => Act.fault (.line .timedOut)
  | frame :: rest, s => do
    let m ← Act.ofExcept (a.hear frame)
    match ← receive s m with
    | .await s => listen a receive rest s
    | .finished result => return result

/-- A whole session as a customer. -/
def Customer.run (a : Agent R) (frames : List Bytes) : Act (Seat R) (Outcome R) := do
  let w ← Customer.start a
  listen a (Customer.receive a) frames w

/-- A whole session as a server. -/
def Server.run (a : Agent R) (frames : List Bytes) : Act (Seat R) Sandwich := do
  let s ← Server.start a
  listen a (Server.receive a) frames s

end DeliTalk
