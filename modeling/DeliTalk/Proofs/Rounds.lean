import DeliTalk.Proofs.Frames
import DeliTalk.Proofs.Turns
import DeliTalk.Session.Negotiation

/-!
# Negotiations round by round

Two machines on one line are always at the same turn: the customer's message is on its way, the
server waits for it, and nothing is on its way back. One exchange answers that message and takes
the answer; each act changes the table of its side, sends its frames and adds its records.

* `Sandwich.Plain`, `Agent.hear_of_frames`: what is heard of a frame.
* `Negotiation.Parlor.Shows`: what a parlor shows, and what an act of either side makes of it.
* `Negotiation.exchange_spec`: one exchange.
* `Negotiation.Minutes`, `Negotiation.Kept`: the records of a whole negotiation, and so far.
-/

namespace DeliTalk

open Act

/-! ## 1. What is heard of a frame -/

/-- A sandwich of leaves. -/
def Sandwich.Plain (s : Sandwich) : Prop :=
  (∀ i ∈ s.ingredients, i.children = none) ∧ ∀ i ∈ s.ensured, i.children = none

theorem Sandwich.plain_empty : ({} : Sandwich).Plain := ⟨by simp, by simp⟩

theorem Ingredient.heights_of_leaves : ∀ {cs : List Ingredient}, (∀ i ∈ cs, i.children = none) →
    heights cs ≤ 1
  | [], _ => Nat.zero_le 1
  | ⟨_, _, children⟩ :: rest, h => by
    have hchildren : children = none := h _ List.mem_cons_self
    subst hchildren
    have hrest : heights rest ≤ 1 := heights_of_leaves fun i hi => h i (List.mem_cons_of_mem _ hi)
    simp only [heights, height]
    omega

theorem Sandwich.Plain.shallow {s : Sandwich} (h : s.Plain) (ts : List Tagged) :
    (Agent.message ts (some s)).Shallow := by
  intro s' hs'
  cases hs'
  have hi := Ingredient.heights_of_leaves h.1
  have he := Ingredient.heights_of_leaves h.2
  unfold Message.heightLimit
  exact ⟨by omega, by omega⟩

theorem Agent.shallow_words (ts : List Tagged) : (Agent.message ts none).Shallow := by
  intro s hs
  cases hs

/-- **A frame is heard** by a machine with some time to wait. -/
theorem Agent.hear_of_frames {a b : Agent ℝ} {m : Message} {frame : Bytes} (h : a.Frames m frame)
    (hm : m.Shallow) (hb : 0 < b.config.turnTimeout) : b.hear frame = .ok m := by
  have hzero : ¬ b.config.turnTimeout ≤ (0.0 : ℝ) := by
    norm_num
    exact hb
  unfold hear
  rw [if_neg hzero, Frame.decode_encode hm h]

/-! ## 2. Moves in a parlor -/

namespace Pair

theorem foldl_push_left : ∀ (frames : List Bytes) (p : Pair),
    frames.foldl (·.push .left) p = { p with toRight := p.toRight ++ frames }
  | [], p => by simp
  | frame :: rest, p => by
    rw [List.foldl_cons, foldl_push_left rest]
    simp [push]

theorem foldl_push_right : ∀ (frames : List Bytes) (p : Pair),
    frames.foldl (·.push .right) p = { p with toLeft := p.toLeft ++ frames }
  | [], p => by simp
  | frame :: rest, p => by
    rw [List.foldl_cons, foldl_push_right rest]
    simp [push]

end Pair

namespace Negotiation

/-- What a parlor looks like: both tables, the frames on their way to the left and to the right, and
the records. -/
structure Parlor.Shows (p : Parlor ℝ) (customer server : Table ℝ) (toLeft toRight : List Bytes)
    (records : List (TurnRecord ℝ)) : Prop where
  customer : p.customer.table = customer
  server : p.server.table = server
  toLeft : p.line.toLeft = toLeft
  toRight : p.line.toRight = toRight
  records : p.records = records

section Moves

variable {α : Type} {x : Act (Seat ℝ) α} {post : α → Seat ℝ → Prop} {flaw : Fault → Seat ℝ → Prop}
  {p : Parlor ℝ} {c s : Table ℝ} {left right : List Bytes} {rs : List (TurnRecord ℝ)}

/-- **An act of the customer** changes its table, and adds its frames and its records. -/
theorem Parlor.Shows.byCustomer (hp : p.Shows c s left right rs)
    (h : Ends x ⟨c, []⟩ post flaw) :
    (∃ v seat p', post v seat ∧ byCustomer x p = (.ok v, p') ∧
      p'.Shows seat.table s left (right ++ seat.frames) (rs ++ seat.records)) ∨
    ∃ e seat p', flaw e seat ∧ byCustomer x p = (.error e, p') := by
  have hseat : ({ p.customer with events := [] } : Seat ℝ) = ⟨c, []⟩ := by rw [← hp.customer]
  unfold Negotiation.byCustomer move
  unfold Ends at h
  rw [hseat]
  generalize perform x ⟨c, []⟩ = r at h
  obtain ⟨r, seat⟩ := r
  cases r with
  | error e => exact Or.inr ⟨e, seat, _, h, rfl⟩
  | ok v =>
    refine Or.inl ⟨v, seat, _, h, rfl, rfl, hp.server, ?_, ?_, ?_⟩
    · simp [Pair.foldl_push_left, hp.toLeft]
    · simp [Pair.foldl_push_left, hp.toRight]
    · simp [hp.records]

/-- **An act of the server** changes its table, and adds its frames and its records. -/
theorem Parlor.Shows.byServer (hp : p.Shows c s left right rs)
    (h : Ends x ⟨s, []⟩ post flaw) :
    (∃ v seat p', post v seat ∧ byServer x p = (.ok v, p') ∧
      p'.Shows c seat.table (left ++ seat.frames) right (rs ++ seat.records)) ∨
    ∃ e seat p', flaw e seat ∧ byServer x p = (.error e, p') := by
  have hseat : ({ p.server with events := [] } : Seat ℝ) = ⟨s, []⟩ := by rw [← hp.server]
  unfold Negotiation.byServer move
  unfold Ends at h
  rw [hseat]
  generalize perform x ⟨s, []⟩ = r at h
  obtain ⟨r, seat⟩ := r
  cases r with
  | error e => exact Or.inr ⟨e, seat, _, h, rfl⟩
  | ok v =>
    refine Or.inl ⟨v, seat, _, h, rfl, hp.customer, rfl, ?_, ?_, ?_⟩
    · simp [Pair.foldl_push_right, hp.toLeft]
    · simp [Pair.foldl_push_right, hp.toRight]
    · simp [hp.records]

end Moves

/-! ## 3. One exchange -/

/-- Where a server stands after a move. -/
def station : Progress Server.Serving Sandwich → Station Server.Serving Sandwich
  | .await s => .await s
  | .finished sandwich => .finished (.ok sandwich)

/-- Where a negotiation stands after a move of the customer. -/
def onward {R : Type} (serving : Station Server.Serving Sandwich) (p : Parlor R) :
    Progress Customer.Waiting (Outcome R) → Progress (Standing R) (Over R)
  | .await w => .await ⟨w, serving, p⟩
  | .finished o => .finished ⟨.ok o, serving, p⟩

/-- A negotiation spoiled by a fault of the server, or of the customer, of a kind each. -/
def Spoiled {R : Type} (flaw flaw' : Fault → Prop) : Progress (Standing R) (Over R) → Prop
  | .await st => ∃ e, flaw e ∧ st.serving = .finished (.error e)
  | .finished o => (∃ e, flaw' e ∧ o.outcome = .error e) ∨
      ∃ e, flaw e ∧ o.serving = .finished (.error e)

section Exchange

variable {a b : Agent ℝ} {p : Parlor ℝ} {c s : Table ℝ} {left right : List Bytes}
  {rs : List (TurnRecord ℝ)} {frame : Bytes} {m : Message}

/-- **A message is answered.** -/
theorem answer_spec {serving : Server.Serving}
    {post : Progress Server.Serving Sandwich → Seat ℝ → Prop} {flaw : Fault → Seat ℝ → Prop}
    (hp : p.Shows c s left (frame :: right) rs)
    (hm : b.hear frame = .ok m) (h : Ends (Server.receive b serving m) ⟨s, []⟩ post flaw) :
    (∃ v seat p', post v seat ∧ answer b (.await serving) p = (station v, p') ∧
      p'.Shows c seat.table (left ++ seat.frames) right (rs ++ seat.records)) ∨
    ∃ e seat p', flaw e seat ∧ answer b (.await serving) p = (.finished (.error e), p') := by
  have hnext : p.line.next .right = (some frame, { p.line with toRight := right }) := by
    rw [Pair.next, hp.toRight]
    rfl
  have hp' : ({ p with line := { p.line with toRight := right } } : Parlor ℝ).Shows c s left right
      rs := ⟨hp.customer, hp.server, hp.toLeft, rfl, hp.records⟩
  have hact : Ends (do Server.receive b serving (← Act.ofExcept (b.hear frame))) ⟨s, []⟩ post
      flaw := by
    rw [hm, ends_bind, ends_ok]
    exact h
  unfold answer
  simp only [hnext]
  rcases hp'.byServer hact with ⟨v, seat, p', hpost, hrun, hshows⟩ | ⟨e, seat, p', hflaw, hrun⟩
  · refine Or.inl ⟨v, seat, p', hpost, ?_, hshows⟩
    rw [hrun]
    cases v <;> rfl
  · refine Or.inr ⟨e, seat, p', hflaw, ?_⟩
    rw [hrun]

/-- **An answer is taken.** -/
theorem reply_spec {w : Customer.Waiting}
    {post : Progress Customer.Waiting (Outcome ℝ) → Seat ℝ → Prop} {flaw : Fault → Seat ℝ → Prop}
    (hp : p.Shows c s (frame :: left) right rs) (hm : a.hearAnswer frame = .ok m)
    (h : Ends (Customer.receive a w m) ⟨c, []⟩ post flaw) :
    (∃ v seat p', post v seat ∧ reply a w p = (.ok v, p') ∧
      p'.Shows seat.table s left (right ++ seat.frames) (rs ++ seat.records)) ∨
    ∃ e seat p', flaw e seat ∧ reply a w p = (.error e, p') := by
  have hnext : p.line.next .left = (some frame, { p.line with toLeft := left }) := by
    rw [Pair.next, hp.toLeft]
    rfl
  have hp' : ({ p with line := { p.line with toLeft := left } } : Parlor ℝ).Shows c s left right
      rs := ⟨hp.customer, hp.server, rfl, hp.toRight, hp.records⟩
  have hact : Ends (do Customer.receive a w (← Act.ofExcept (a.hearAnswer frame))) ⟨c, []⟩ post
      flaw := by
    rw [hm, ends_bind, ends_ok]
    exact h
  unfold reply
  simp only [hnext]
  exact hp'.byCustomer hact

/-- **One exchange**: the server answers the frame on its way, the customer takes the answer. -/
theorem exchange_spec (st : Standing ℝ) {serving : Server.Serving}
    {P : Progress Server.Serving Sandwich → Seat ℝ → Prop}
    {Q : Progress Server.Serving Sandwich → Seat ℝ →
      Progress Customer.Waiting (Outcome ℝ) → Seat ℝ → Prop} {F G : Fault → Prop}
    (hp : st.parlor.Shows c s [] [frame] rs) (hserving : st.serving = .await serving)
    (hm : b.hear frame = .ok m)
    (hanswer : Ends (Server.receive b serving m) ⟨s, []⟩ P (fun e _ => F e))
    (hreply : ∀ v seat, P v seat → ∃ frame m, seat.frames = [frame] ∧
      a.hearAnswer frame = .ok m ∧
      Ends (Customer.receive a st.waiting m) ⟨c, []⟩ (Q v seat) (fun e _ => G e)) :
    Spoiled F G (exchange a b st) ∨ ∃ v seat v' seat' p', P v seat ∧ Q v seat v' seat' ∧
      exchange a b st = onward (station v) p' v' ∧
      p'.Shows seat'.table seat.table [] seat'.frames (rs ++ seat.records ++ seat'.records) := by
  unfold exchange
  rw [hserving]
  rcases answer_spec hp hm hanswer with ⟨v, seat, p₁, hP, hrun, hshows⟩ |
    ⟨e, seat, p₁, hF, hrun⟩
  · obtain ⟨frame', m', hframes, hm', hends⟩ := hreply v seat hP
    rw [List.nil_append, hframes] at hshows
    rw [hrun]
    simp only
    rcases reply_spec hshows hm' hends with ⟨v', seat', p₂, hQ, hrun', hshows'⟩ |
      ⟨e, seat', p₂, hF, hrun'⟩
    · refine Or.inr ⟨v, seat, v', seat', p₂, hP, hQ, ?_, hshows'⟩
      rw [hrun']
      cases v' <;> rfl
    · refine Or.inl ?_
      rw [hrun']
      exact Or.inl ⟨e, hF, rfl⟩
  · refine Or.inl ?_
    rw [hrun]
    simp only
    split
    · exact ⟨e, hF, rfl⟩
    · exact Or.inr ⟨e, hF, rfl⟩
    · exact Or.inr ⟨e, hF, rfl⟩

end Exchange

/-! ## 4. Minutes -/

/-- What a record is of: the session, who spoke, the turn. -/
def tag {R : Type} (r : TurnRecord R) : String × String × Int := (r.session, r.speaker, r.turn)

/-- A message each way at every turn of a session. -/
def rounds (session : String) (turns : Nat) : List (String × String × Int) :=
  (List.range turns).flatMap fun k =>
    [(session, Speaker.customer.name, (k : Int)), (session, Speaker.server.name, (k : Int))]

theorem rounds_succ (session : String) (turns : Nat) : rounds session (turns + 1) =
    rounds session turns ++
      [(session, Speaker.customer.name, (turns : Int)),
        (session, Speaker.server.name, (turns : Int))] := by
  simp [rounds, List.range_succ]

/-- The records of a negotiation as they should be: a message each way at every turn, the greeting
first and last and no goodbye of the customer in between, and the judgement at the end. -/
structure Minutes (a b : Agent ℝ) (hello : String) (turns : Nat) (rs : List (TurnRecord ℝ)) :
    Prop where
  tags : rs.map tag =
    rounds a.session (turns + 1) ++ [(a.session, Speaker.judge.name, (turns : Int))]
  greetings : ∀ r ∈ rs, r.speaker ≠ Speaker.judge.name → r.turn = 0 ∨ r.turn = turns →
    r.text = some hello
  requests : ∀ r ∈ rs, r.speaker = Speaker.customer.name → r.turn ≠ 0 → r.turn ≠ turns →
    ¬ b.HearsGoodbye r.text

/-- The records of a negotiation that is still on. -/
structure Kept (a b : Agent ℝ) (hello : String) (turns : Nat) (rs : List (TurnRecord ℝ)) :
    Prop where
  tags : rs.map tag = rounds a.session turns
  before : ∀ r ∈ rs, r.turn < turns
  greetings : ∀ r ∈ rs, r.turn = 0 → r.text = some hello
  requests : ∀ r ∈ rs, r.speaker = Speaker.customer.name → r.turn ≠ 0 → ¬ b.HearsGoodbye r.text

section Minutes

variable {a b : Agent ℝ} {hello : String} {turns : Nat} {rs : List (TurnRecord ℝ)}

theorem kept_nil (a b : Agent ℝ) (hello : String) : Kept a b hello 0 [] :=
  ⟨rfl, by simp, by simp, by simp⟩

/-- One more round of records. -/
theorem Kept.round (h : Kept a b hello turns rs) (text text' : Option String)
    (x y : Option Operation) (s s' : Option Sandwich) (hsession : b.session = a.session)
    (hgreeting : turns = 0 → text = some hello ∧ text' = some hello)
    (hrequest : turns ≠ 0 → ¬ b.HearsGoodbye text) :
    Kept a b hello (turns + 1) (rs ++ [a.turnRecord .customer turns text x s none,
      b.turnRecord .server turns text' y s' none]) := by
  have hmem : ∀ r, r ∈ rs ++ [a.turnRecord .customer turns text x s none,
      b.turnRecord .server turns text' y s' none] → r ∈ rs ∨
      r = a.turnRecord .customer turns text x s none ∨
      r = b.turnRecord .server turns text' y s' none := by
    intro r hr
    simpa using hr
  refine ⟨?_, ?_, ?_, ?_⟩
  · rw [List.map_append, h.tags, rounds_succ]
    simp [tag, Agent.turnRecord, hsession]
  · intro r hr
    rcases hmem r hr with hr | rfl | rfl
    · have := h.before r hr
      omega
    · show (turns : Int) < ((turns + 1 : Nat) : Int)
      omega
    · show (turns : Int) < ((turns + 1 : Nat) : Int)
      omega
  · intro r hr hzero
    rcases hmem r hr with hr | rfl | rfl
    · exact h.greetings r hr hzero
    · exact (hgreeting (Int.natCast_eq_zero.mp hzero)).1
    · exact (hgreeting (Int.natCast_eq_zero.mp hzero)).2
  · intro r hr hspeaker hzero
    rcases hmem r hr with hr | rfl | rfl
    · exact h.requests r hr hspeaker hzero
    · exact hrequest fun heq => hzero (Int.natCast_eq_zero.mpr heq)
    · have hne : Speaker.server.name ≠ Speaker.customer.name := by decide
      exact absurd hspeaker hne

/-- The last round and the judgement. -/
theorem Kept.close (h : Kept a b hello turns rs) (x y : Option Operation)
    (s s' s'' : Option Sandwich) (score : Option ℝ) (hsession : b.session = a.session) :
    Minutes a b hello turns (rs ++ [a.turnRecord .customer turns (some hello) x s none,
      b.turnRecord .server turns (some hello) y s' none,
      a.turnRecord .judge turns none none s'' score]) := by
  have hmem : ∀ r, r ∈ rs ++ [a.turnRecord .customer turns (some hello) x s none,
      b.turnRecord .server turns (some hello) y s' none,
      a.turnRecord .judge turns none none s'' score] → r ∈ rs ∨
      r = a.turnRecord .customer turns (some hello) x s none ∨
      r = b.turnRecord .server turns (some hello) y s' none ∨
      r = a.turnRecord .judge turns none none s'' score := by
    intro r hr
    simpa using hr
  refine ⟨?_, ?_, ?_⟩
  · rw [List.map_append, h.tags, rounds_succ]
    simp [tag, Agent.turnRecord, hsession]
  · intro r hr hspeaker hturn
    rcases hmem r hr with hr | rfl | rfl | rfl
    · rcases hturn with hzero | hlast
      · exact h.greetings r hr hzero
      · have := h.before r hr
        omega
    · rfl
    · rfl
    · exact absurd rfl hspeaker
  · intro r hr hspeaker hzero hlast
    rcases hmem r hr with hr | rfl | rfl | rfl
    · exact h.requests r hr hspeaker hzero
    · exact absurd rfl hlast
    · exact absurd rfl hlast
    · exact absurd rfl hlast

end Minutes

end Negotiation

end DeliTalk
