import DeliTalk.Personality.Birth
import DeliTalk.Session.Customer
import DeliTalk.Session.Server

/-!
# Two machines negotiating one sandwich

Customer and server are joined by a line of their own, on which the customer's frame size holds
for both, and take turns: the server takes the next frame on its way, then the customer takes the
next one, until the customer is done. Their records go into one transcript in the order they are
made. A side with nothing on its way to it waits in vain; a side that is done hangs up.

* `Negotiation.exchange`: one turn of the server and one of the customer.
* `Negotiation.settle`: from the greeting to the end of both sides.
* `Negotiation.run`: the same as its caller sees it.
* `Negotiation.newborn`: two machines that do not know each other yet.
* `Negotiation.series`: several negotiations in a row.
-/

namespace DeliTalk

/-- Two machines and their common records. -/
structure Negotiation (R : Type) where
  customer : Mind R
  server : Mind R
  records : List (TurnRecord R) := []

namespace Negotiation

variable {R : Type} [Scalar R]

/-! ## 1. Both machines at work -/

/-- Both machines, the line between them, the customer at its left end, and the records. -/
structure Parlor (R : Type) where
  customer : Seat R
  server : Seat R
  line : Pair
  records : List (TurnRecord R)

/-- What one machine did: how it went, the frames it sent, the turns it recorded, and the
machine. -/
structure Move (R α : Type) where
  result : Except Fault α
  frames : List Bytes
  records : List (TurnRecord R)
  seat : Seat R

/-- One act of a machine, its events told apart from those before. -/
def move {α : Type} (x : Act (Seat R) α) (seat : Seat R) : Move R α :=
  let (result, after) := x.perform { seat with events := [] }
  ⟨result, after.frames, after.records, { after with events := seat.events ++ after.events }⟩

/-- An act of the customer. -/
def byCustomer {α : Type} (x : Act (Seat R) α) (p : Parlor R) : Except Fault α × Parlor R :=
  let m := move x p.customer
  (m.result, { p with
    customer := m.seat
    line := m.frames.foldl (·.push .left) p.line
    records := p.records ++ m.records })

/-- An act of the server. -/
def byServer {α : Type} (x : Act (Seat R) α) (p : Parlor R) : Except Fault α × Parlor R :=
  let m := move x p.server
  (m.result, { p with
    server := m.seat
    line := m.frames.foldl (·.push .right) p.line
    records := p.records ++ m.records })

/-! ## 2. Taking turns -/

/-- Where one side stands: at work, or how it ended. -/
abbrev Station (σ β : Type) : Type := Progress σ (Except Fault β)

/-- The server takes the next frame, if it is still at work. -/
def answer (a : Agent R) (serving : Station Server.Serving Sandwich) (p : Parlor R) :
    Station Server.Serving Sandwich × Parlor R :=
  match serving with
  | .finished served => (.finished served, p)
  | .await s =>
    match p.line.next .right with
    | (none, _) => (.finished (.error (.line .timedOut)), p)
    | (some frame, line) =>
      match byServer (do Server.receive a s (← Act.ofExcept (a.hear frame)))
        { p with line := line } with
      | (.ok (.await s), p) => (.await s, p)
      | (.ok (.finished sandwich), p) => (.finished (.ok sandwich), p)
      | (.error e, p) => (.finished (.error e), p)

/-- The customer takes the next frame. -/
def reply (a : Agent R) (w : Customer.Waiting) (p : Parlor R) :
    Except Fault (Progress Customer.Waiting (Outcome R)) × Parlor R :=
  match p.line.next .left with
  | (none, _) => (.error (.line .timedOut), p)
  | (some frame, line) =>
    byCustomer (do Customer.receive a w (← Act.ofExcept (a.hearAnswer frame)))
      { p with line := line }

/-- A negotiation between two exchanges. -/
structure Standing (R : Type) where
  waiting : Customer.Waiting
  serving : Station Server.Serving Sandwich
  parlor : Parlor R

/-- A negotiation whose customer is done. -/
structure Over (R : Type) where
  outcome : Except Fault (Outcome R)
  serving : Station Server.Serving Sandwich
  parlor : Parlor R

/-- The server takes a turn, then the customer. -/
def exchange (customer server : Agent R) (s : Standing R) : Progress (Standing R) (Over R) :=
  let (serving, p) := answer server s.serving s.parlor
  match reply customer s.waiting p with
  | (.ok (.await w), p) => .await ⟨w, serving, p⟩
  | (.ok (.finished outcome), p) => .finished ⟨.ok outcome, serving, p⟩
  | (.error e, p) => .finished ⟨.error e, serving, p⟩

/-- Exchanges until the customer is done. -/
def converse (customer server : Agent R) : (fuel : Nat) → Standing R → Over R
  | 0, s => ⟨.error (.line .timedOut), s.serving, s.parlor⟩
  | fuel + 1, s =>
    match exchange customer server s with
    | .await s => converse customer server fuel s
    | .finished o => o

/-- The customer hangs up, which a server still at work hears. -/
def hangUp (a : Agent R) (o : Over R) : Except Fault Sandwich × Parlor R :=
  match answer a o.serving { o.parlor with line := o.parlor.line.close .left } with
  | (.finished served, p) => (served, p)
  | (.await _, p) => (.error (.line .timedOut), p)

/-! ## 3. A whole negotiation -/

/-- How both sides of a negotiation ended, and the machines afterwards. -/
structure Settlement (R : Type) where
  outcome : Except Fault (Outcome R)
  served : Except Fault Sandwich
  after : Negotiation R

/-- What the caller is told: the customer's outcome, unless the server failed, and not on the
line. -/
def Settlement.verdict (s : Settlement R) : Except Fault (Outcome R) :=
  match s.outcome, s.served with
  | .ok _, .error (.line _) => s.outcome
  | .ok _, .error e => .error e
  | _, _ => s.outcome

/-- A server on a customer's line, in the customer's session. -/
def joining (server customer : Agent R) : Agent R :=
  { server with
    config := { server.config with frameSize := customer.config.frameSize }
    session := customer.session }

/-- Both machines before the first exchange: the order is placed and the greeting sent, the pantry
is filled. -/
def opening (customer server : Agent R) (n : Negotiation R) :
    Except Fault Customer.Waiting × Station Server.Serving Sandwich × Parlor R :=
  let p : Parlor R :=
    ⟨Seat.of n.customer, Seat.of n.server, { frameSize := customer.config.frameSize }, n.records⟩
  let (greeted, p) := byCustomer (Customer.start customer) p
  match byServer (Server.start server) p with
  | (.ok s, p) => (greeted, .await s, p)
  | (.error e, p) => (greeted, .finished (.error e), p)

/-- One negotiation, from the greeting to the end of both sides. -/
def settle (customer server : Agent R) (n : Negotiation R) : Settlement R :=
  let server := joining server customer
  let o : Over R := match opening customer server n with
    | (.ok w, serving, p) =>
      converse customer server (customer.config.maxTurns.toNat + 3) ⟨w, serving, p⟩
    | (.error e, serving, p) => ⟨.error e, serving, p⟩
  let (served, p) := hangUp server o
  ⟨o.outcome, served, ⟨p.customer.table.mind, p.server.table.mind, p.records⟩⟩

/-- One negotiation: its outcome, and the machines afterwards. -/
def run (customer server : Agent R) (n : Negotiation R) :
    Except Fault (Outcome R) × Negotiation R :=
  let s := settle customer server n
  (s.verdict, s.after)

/-! ## 4. Newborn machines -/

/-- A source of chance of its own, seeded by a draw. -/
def offspring : Luck R (Chance R) := do
  let x ← drawOne
  return .seeded (Twister.ofSeed (256 * Scalar.floor (x * Scalar.ofNat Chance.resolution)))

/-- A newborn machine with a source of chance of its own. -/
def newbornMind (t : Taxonomy) (stock : Int) : Luck R (Mind R) := do
  let p ← Personality.newborn t stock
  return ⟨p, ← offspring⟩

/-- Two newborn machines, customer and server. -/
def newbornPair (t : Taxonomy) (stock : Int) : Luck R (Negotiation R) := do
  let customer ← newbornMind t stock
  return { customer := customer, server := ← newbornMind t stock }

/-- Two newborn machines that share a lexicon and a configuration. -/
def newborn (lex : Lexicon) (c : Config R) (seed : Int) : Except Fault (Negotiation R) :=
  ((newbornPair lex.taxonomy c.stockPerIngredient).perform (.seeded (Twister.ofSeed seed))).1

/-- Several negotiations of the same two machines, one after the other, each with a name and
records of its own. -/
def series (lex : Lexicon) (c : Config R) :
    (sessions : List String) → Negotiation R →
      List (Except Fault (Outcome R) × List (TurnRecord R)) × Negotiation R
  | [], n => ([], n)
  | session :: rest, n =>
    let a : Agent R := ⟨lex, c, 1.0, session⟩
    let (outcome, n) := run a a { n with records := [] }
    let (later, last) := series lex c rest n
    ((outcome, n.records) :: later, last)

end Negotiation

end DeliTalk
