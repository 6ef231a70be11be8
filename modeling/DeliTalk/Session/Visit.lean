import DeliTalk.Session.Customer
import DeliTalk.Session.Server

/-!
# A machine among others: visitors on a stream, and peers to visit

A machine serves whoever comes in on a stream, one at a time; while it is busy it hangs up at
once. Whatever goes wrong on the line only ends that visit. Between visits it picks one of its
peers to order from.

* `attend`: a session over a stream.
* `Server.welcome`: one visit.
* `Agent.pickPeer`: whom to visit.
-/

namespace DeliTalk

variable {R : Type} [Scalar R]

/-- The next message of a stream; none arrives when there is no time to wait. -/
def Agent.hearFrom (a : Agent R) (w : Wire) : Except Fault Message × Wire :=
  if a.config.turnTimeout ≤ (0.0 : R) then (.error (.line .timedOut), w) else w.receive R

/-- Takes message after message off a stream until the session is over. Every message takes at
least one byte, so the bytes that came in bound their number. -/
def attend {σ β : Type} (a : Agent R) (receive : σ → Message → Act (Seat R) (Progress σ β)) :
    (fuel : Nat) → Wire → σ → Act (Seat R) β
  | 0, _, _ => Act.fault (.line .timedOut)
  | fuel + 1, w, s => do
    let (m, w) := a.hearFrom w
    match ← receive s (← Act.ofExcept m) with
    | .await s => attend a receive fuel w s
    | .finished result => return result

/-- A whole session as a server on a stream. -/
def Server.attend (a : Agent R) (w : Wire) : Act (Seat R) Sandwich := do
  let s ← Server.start a
  DeliTalk.attend a (Server.receive a) (w.incoming.length + 1) w s

/-- One visit. A busy machine hangs up at once; a fault on the line ends the visit. -/
def Server.welcome (a : Agent R) (busy : Bool) (incoming : Bytes) : Act (Seat R) Unit := do
  if busy then return ()
  else
    let w : Wire := { frameSize := a.config.frameSize, incoming := incoming, ended := true }
    match ← (Server.attend a w).attempt with
    | .ok _ | .error (.line _) => return ()
    | .error e => Act.fault e

/-- A name in small letters. -/
def hostKey (name : String) : String := String.ofList (name.toList.map Char.toLower)

/-- One of the peers that are not the machine itself; none if there is no other. -/
def Agent.pickPeer (a : Agent R) (self : String) : Luck R (Option String) := do
  let others := a.config.peers.filter fun p => hostKey p != hostKey self
  if others.isEmpty then return none else some <$> choose others

end DeliTalk
