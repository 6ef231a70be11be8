import DeliTalk.Proofs.Rounds

/-!
# The course of a negotiation

What a customer and a server keep to is a course: what holds before a request, once it was asked,
once it was heard, and once it was served. Whoever keeps to a course gets through a whole
negotiation on it, unless some message does not fit into its frame.

* `Course`, `Course.Kept`: a course, and that two machines keep to it.
* `Negotiation.Midway`: a standing between two exchanges.
* `Negotiation.exchange_asking`, `exchange_leaving`, `exchange_greeting`: one exchange.
* `Negotiation.converse_midway`: all of them.
* `Negotiation.settle_of_kept`: a whole negotiation.
-/

namespace DeliTalk

open Act

/-! ## 1. Courses -/

/-- Both tables, and the sandwich the server made so far. -/
structure Scene where
  customer : Table ℝ
  server : Table ℝ
  sandwich : Sandwich

/-- What holds at a turn: before the customer's request, once it was asked or there was none, once
it was heard or not understood, and once it was served with an answer or in silence; and what
messages are sent on the way. -/
structure Course where
  before : Nat → Scene → Prop
  asked : Nat → Option Operation → Scene → Prop
  heard : Nat → Option (Reading ℝ) → Scene → Prop
  served : Nat → Option Operation → Scene → Prop
  sends : Message → Prop

/-- That a customer and a server keep to a course. -/
structure Course.Kept (C : Course) (a b : Agent ℝ) : Prop where
  /-- Out of turns, nothing is asked for. -/
  stops : ∀ {k s}, C.before k s → ¬ (k : Int) < a.config.maxTurns → C.asked k none s
  /-- Otherwise the customer comes to a request or to none. -/
  asks : ∀ {k s}, C.before k s → (k : Int) < a.config.maxTurns →
    Ends (Order.next s.sandwich) s.customer
      (Customer.Voices a fun x t => C.asked k x { s with customer := t }) never
  /-- A pause of the customer changes nothing. -/
  rests : ∀ {k x s}, C.asked k x s →
    Table.Rests (fun t => C.asked k x { s with customer := t }) s.customer
  /-- Neither does one of the server at a goodbye. -/
  parts : ∀ {k x s}, C.asked k x s →
    Table.Rests (fun t => C.asked k x { s with server := t }) s.server
  /-- A request is said while there are turns, and is no goodbye. -/
  requests : ∀ {k x s}, C.asked k (some x) s → (k : Int) < a.config.maxTurns ∧ x ≠ .finish ∧
    ∃ ts, Agent.speak a.lexicon (some x) = .ok ts ∧ ts ≠ []
  /-- A request is heard. -/
  hears : ∀ {k x s ts}, C.asked k (some x) s → Agent.speak a.lexicon (some x) = .ok ts →
    Ends (b.understand (Phrase.text? ts)) s.server.mind (fun r m =>
      Table.Rests (fun t => C.heard k r { s with server := t }) ⟨s.server.order, m⟩) never
  /-- What was not understood is not served. -/
  ignores : ∀ {k s}, C.heard k none s → C.served k none s
  /-- What was understood is no goodbye, and is served. -/
  serves : ∀ {k r s}, C.heard k (some r) s → r.operation ≠ .finish ∧
    Ends (Order.serve r.operation r.skills r.lex s.sandwich) s.server
      (fun p t => C.served k p.2 ⟨s.customer, t, p.1⟩) never
  /-- The answer is heeded, and the next turn begins. -/
  heeds : ∀ {k y s ts}, C.served k y s → Agent.speak b.lexicon y = .ok ts →
    s.sandwich.Plain ∧ Ends (a.understand (Phrase.text? ts)) s.customer.mind (fun r m =>
      C.before (k + 1) { s with customer := ⟨Customer.heeded s.customer.order r, m⟩ }) never
  /-- What the server made is made of leaves. -/
  plain : ∀ {k x s}, C.asked k x s → s.sandwich.Plain
  /-- The greeting and its answer are sent. -/
  greets : ∀ {ts}, Agent.speak a.lexicon (some .finish) = .ok ts →
    C.sends (Agent.message ts none) ∧ C.sends (Agent.message ts (some {}))
  /-- So are requests, and the goodbye. -/
  tells : ∀ {k x s ts}, C.asked k x s →
    Agent.speak a.lexicon (some (Customer.spoken x)) = .ok ts → C.sends (Agent.message ts none)
  /-- So are answers. -/
  answers : ∀ {k y s ts}, C.served k y s → Agent.speak b.lexicon y = .ok ts →
    C.sends (Agent.message ts (some s.sandwich))
  /-- So is the answer to the goodbye. -/
  finishes : ∀ {k s ts}, C.asked k none s → Agent.speak a.lexicon (some .finish) = .ok ts →
    C.sends (Agent.message ts (some { s.sandwich with complete := true }))

/-- Two machines that can negotiate: they speak one language and look their words up, frames have
one size, nobody's time runs out, and there is no negative number of turns. -/
structure Partners (t : Taxonomy) (words : List (String × Entry)) (a b : Agent ℝ) : Prop where
  customer : a.Speaks t words
  server : b.Speaks t words
  frameSize : b.config.frameSize = a.config.frameSize
  session : b.session = a.session
  patience : Agent.answerTime < a.config.turnTimeout
  time : 0 < b.config.turnTimeout
  turns : 0 ≤ a.config.maxTurns

namespace Partners

variable {t : Taxonomy} {words : List (String × Entry)} {a b : Agent ℝ}

theorem lexicon (hp : Partners t words a b) : b.lexicon = a.lexicon :=
  hp.server.lexicon.trans hp.customer.lexicon.symm

theorem unfit_iff (hp : Partners t words a b) (M : Message → Prop) (e : Fault) :
    b.Unfit M e ↔ a.Unfit M e := by
  unfold Agent.Unfit Agent.Refuses
  rw [hp.frameSize]

/-- The server hears what the customer frames. -/
theorem hear (hp : Partners t words a b) {ts : List Tagged} {frame : Bytes}
    (h : a.Frames (Agent.message ts none) frame) :
    b.hear frame = .ok (Agent.message ts none) :=
  Agent.hear_of_frames h (Agent.shallow_words ts) hp.time

/-- The customer hears what the server frames. -/
theorem hearAnswer (hp : Partners t words a b) {ts : List Tagged} {s : Sandwich} (hs : s.Plain)
    {frame : Bytes} (h : b.Frames (Agent.message ts (some s)) frame) :
    a.hearAnswer frame = .ok (Agent.message ts (some s)) := by
  have hpos : (0 : ℝ) < Agent.answerTime := by
    unfold Agent.answerTime
    norm_num
  unfold Agent.hearAnswer
  rw [if_pos hp.patience]
  exact Agent.hear_of_frames h (hs.shallow ts) (hpos.trans hp.patience)

end Partners

namespace Negotiation

/-! ## 2. Standings -/

section

variable (C : Course) (a b : Agent ℝ) (base : List (TurnRecord ℝ)) (hello : String)

/-- A standing once the customer asked for something, or said goodbye, in some words. -/
structure Midway (k : Nat) (x : Option Operation) (s : Scene) (ts : List Tagged) (frame : Bytes)
    (rs : List (TurnRecord ℝ)) (st : Standing ℝ) : Prop where
  turns : (k : Int) ≤ a.config.maxTurns
  asked : C.asked k x s
  waiting : st.waiting = Customer.waiting x (k + 1) s.sandwich
  serving : st.serving = .await ⟨k + 1, true, s.sandwich⟩
  words : Agent.speak a.lexicon (some (Customer.spoken x)) = .ok ts
  framed : a.Frames (Agent.message ts none) frame
  kept : Kept a b hello (k + 1) rs
  parlor : st.parlor.Shows s.customer s.server [] [frame] (base ++ rs ++
    [a.turnRecord .customer (k + 1) (Phrase.text? ts) (some (Customer.spoken x)) none none])

/-- A negotiation that ended as it should. -/
structure Closed (k : Nat) (s : Scene) (rs : List (TurnRecord ℝ)) (o : Over ℝ) : Prop where
  turns : (k : Int) ≤ a.config.maxTurns
  asked : C.asked k none s
  outcome : o.outcome = .ok
    (Customer.verdict a s.customer.order (k + 1) { s.sandwich with complete := true })
  served : o.serving = .finished (.ok { s.sandwich with complete := true })
  records : o.parlor.records = base ++ rs
  minutes : Minutes a b hello (k + 1) rs

end

section

variable {t : Taxonomy} {words : List (String × Entry)} (h : Lexicon.Sound t words)
  {a b : Agent ℝ} (hp : Partners t words a b) {C : Course} (hC : C.Kept a b) {w : Tagged}
  (hw : a.lexicon.wordForUsage .greeting = .ok w) {base : List (TurnRecord ℝ)}

include h hp hC

/-- **The customer's turn** on a course. -/
theorem ends_turn {k : Nat} {s : Scene} (hbefore : C.before k s) (seat : Seat ℝ)
    (htable : seat.table = s.customer) :
    Ends (Customer.ask a k s.sandwich) seat
      (Customer.Asked a (fun x t => C.asked k x { s with customer := t }) seat (k + 1) s.sandwich)
      (fun e _ => a.Unfit C.sends e) := by
  have hnext : Ends (Customer.nextRequest a k s.sandwich) seat (fun x seat' =>
      C.asked k x { s with customer := seat'.table } ∧ seat.Did seat' [] []) never := by
    refine (Customer.ends_nextRequest (Q := fun x t => C.asked k x { s with customer := t })
      (F := fun _ => False) ?_ ?_).mono (fun x seat' hx => ?_) fun e seat' he => he.1
    · intro hdone
      rw [htable]
      exact hC.stops hbefore hdone
    · intro hlt
      rw [htable]
      exact (hC.asks hbefore hlt).imp fun x t hx => hx.utters
    · obtain ⟨t, hasked, rfl⟩ := hx
      exact ⟨hasked, Seat.did_withTable seat t⟩
  exact Customer.ends_ask hnext (fun x t hx => hC.rests hx)
    (fun x => hp.customer.speak h (some x)) fun x t ts hx hts => hC.tells hx hts

omit h hp hC in
/-- Where a negotiation is after the customer's move. -/
theorem midway_of_asked (base : List (TurnRecord ℝ)) {k : Nat} {s : Scene} {c : Table ℝ}
    {rs rs' : List (TurnRecord ℝ)} {seat : Seat ℝ} {hello : String} {v : Customer.Waiting}
    {p : Parlor ℝ} (hturns : (k : Int) ≤ a.config.maxTurns)
    (hkept : Kept a b hello (k + 1) rs) (hrecords : rs' = base ++ rs)
    (hasked : Customer.Asked a (fun x t => C.asked k x { s with customer := t })
      ⟨c, []⟩ (k + 1) s.sandwich v seat)
    (hshows : p.Shows seat.table s.server [] seat.frames (rs' ++ seat.records)) :
    ∃ x s' ts frame, Midway C a b base hello k x s' ts frame rs
      ⟨v, .await ⟨k + 1, true, s.sandwich⟩, p⟩ := by
  obtain ⟨x, ts, frame, rfl, hx, hts, hframe, hdid⟩ := hasked
  have hframes : seat.frames = [frame] := hdid.frames
  have hrecs : seat.records = _ := hdid.records
  rw [hframes, hrecs, hrecords] at hshows
  exact ⟨x, { s with customer := seat.table }, ts, frame, hturns, hx, rfl, rfl, hts, hframe, hkept,
    hshows⟩

/-! ## 3. One exchange -/

/-- **The server's turn** on a course: the request is heard and answered. -/
theorem ends_request {k : Nat} {x : Operation} {s : Scene} {ts : List Tagged}
    (hasked : C.asked k (some x) s) (hwords : Agent.speak a.lexicon (some x) = .ok ts) :
    Ends (Server.receive b ⟨k + 1, true, s.sandwich⟩ (Agent.message ts none)) ⟨s.server, []⟩
      (Server.Answered b (fun y sandwich t => C.served k y ⟨s.customer, t, sandwich⟩)
        ⟨s.server, []⟩ ⟨k + 1, true, s.sandwich⟩) (fun e _ => a.Unfit C.sends e) := by
  have hunfit : ∀ (e : Fault) (_ : Seat ℝ), b.Unfit C.sends e → a.Unfit C.sends e :=
    fun e _ he => (hp.unfit_iff C.sends e).mp he
  refine Ends.mono (?_ : Ends _ _ _ fun e _ => b.Unfit C.sends e) (fun _ _ => id) hunfit
  refine Server.ends_receive (Q := fun r t => C.heard k r { s with server := t })
    ((hC.hears hasked hwords).sure.imp fun r m hr c hc => hr.after hc) ?_ ?_ ?_
  · intro t hheard
    have hserved := hC.ignores hheard
    have hsent : C.sends (Agent.message [] (some s.sandwich)) :=
      hC.answers (y := none) (s := ⟨s.customer, t, s.sandwich⟩) hserved rfl
    exact Server.ends_silent (Seat.did_withTable _ t) hserved hsent
  · intro r t hheard hfinish
    exact absurd hfinish (hC.serves hheard).1
  · intro r t hheard _
    exact Server.ends_serve (Seat.did_withTable _ t) (hC.serves hheard).2
      (fun y => hp.server.speak h y)
      fun y sandwich t ts hserved hts => hC.answers hserved hts

/-- **A request is answered**, and the next one made, or the negotiation is spoiled. -/
theorem exchange_asking {k : Nat} {x : Operation} {s : Scene} {ts : List Tagged} {frame : Bytes}
    {rs : List (TurnRecord ℝ)} {st : Standing ℝ} {hello : String}
    (hst : Midway C a b base hello k (some x) s ts frame rs st) :
    Spoiled (a.Unfit C.sends) (a.Unfit C.sends) (exchange a b st) ∨
      ∃ x' s' ts' frame' rs' st', exchange a b st = .await st' ∧
        Midway C a b base hello (k + 1) x' s' ts' frame' rs' st' := by
  have hrequest := hC.requests hst.asked
  have hwords : Agent.speak b.lexicon (some x) = .ok ts := by
    rw [hp.lexicon]
    exact hst.words
  have hgo := exchange_spec (a := a) (G := a.Unfit C.sends) st
    (Q := fun v seat v' seat' => ∃ s' : Scene, v = .await ⟨k + 1 + 1, true, s'.sandwich⟩ ∧
      s'.server = seat.table ∧ s'.customer = s.customer ∧
      (∃ y ts', seat.records =
        [b.turnRecord .server (k + 1) (Phrase.text? ts') y (some s'.sandwich) none]) ∧
      Customer.Continues a (fun x t => C.asked (k + 1) x { s' with customer := t })
        ⟨s.customer, []⟩ (k + 1 + 1) s'.sandwich v' seat')
    hst.parlor hst.serving (hp.hear hst.framed) (ends_request h hp hC hst.asked hst.words) ?_
  · rcases hgo with hspoiled | ⟨v, seat, v', seat', p', -, hpost, hexchange, hshows⟩
    · exact Or.inl hspoiled
    · refine Or.inr ?_
      obtain ⟨s', rfl, hserver, hcustomer, ⟨y, ts', hrecords⟩, w', rfl, hasked⟩ := hpost
      rw [hrecords, ← hserver] at hshows
      rw [← hcustomer] at hasked
      have hkept := hst.kept.round (Phrase.text? ts) (Phrase.text? ts') (some x) y none
        (some s'.sandwich) hp.session
        (fun hzero => absurd hzero (Nat.succ_ne_zero k))
        (fun _ => hp.server.not_hearsGoodbye h hrequest.2.1 hwords)
      obtain ⟨x'', s'', ts'', frame'', hmidway⟩ := midway_of_asked base
        (by have := hrequest.1; push_cast; omega) hkept (by simp [Customer.spoken]) hasked hshows
      exact ⟨x'', s'', ts'', frame'', _, _, hexchange, hmidway⟩
  · rintro v seat ⟨y, sandwich, ts', frame', rfl, hserved, hts', hframe', hdid⟩
    obtain ⟨hplain, hheeds⟩ := hC.heeds hserved hts'
    refine ⟨frame', _, hdid.frames, hp.hearAnswer hplain hframe', ?_⟩
    rw [hst.waiting]
    refine (Customer.ends_answered (P := fun t => C.before (k + 1) ⟨t, seat.table, sandwich⟩)
      (Q := fun x t => C.asked (k + 1) x ⟨t, seat.table, sandwich⟩) hheeds
      (fun seat' hbefore => ends_turn h hp hC hbefore seat' rfl)).imp fun v' seat' hv => ?_
    exact ⟨⟨s.customer, seat.table, sandwich⟩, rfl, rfl, rfl, ⟨y, ts', hdid.records⟩, hv⟩

omit h hp hC in
include hw in
/-- The words of a goodbye. -/
theorem speak_finish : Agent.speak a.lexicon (some .finish) = .ok [w] := by
  rw [Agent.speak, Operation.encode, hw]
  rfl

omit hC in
/-- A goodbye is answered by the server, whatever it takes from its source. -/
theorem ends_parted {s : Table ℝ} {serving : Server.Serving} {P : Table ℝ → Prop}
    {M : Message → Prop} (hrests : Table.Rests P s)
    (hw : a.lexicon.wordForUsage .greeting = .ok w)
    (hsent : M (Agent.message [w] (some serving.parting))) :
    Ends (Server.receive b serving (Agent.message [w] none)) ⟨s, []⟩
      (Server.Parted b P [w] ⟨s, []⟩ serving) (fun e _ => a.Unfit M e) := by
  have hw' : b.lexicon.wordForUsage .greeting = .ok w := by
    rw [hp.lexicon]
    exact hw
  exact (Server.ends_hello h hp.server hw' hrests hsent).mono (fun _ _ => id)
    fun e _ he => (hp.unfit_iff M e).mp he

/-- **The goodbye is answered**, and both sides are done, or the negotiation is spoiled. -/
theorem exchange_leaving {k : Nat} {s : Scene} {ts : List Tagged} {frame : Bytes}
    {rs : List (TurnRecord ℝ)} {st : Standing ℝ}
    (hw : a.lexicon.wordForUsage .greeting = .ok w)
    (hst : Midway C a b base (Phrase.render [w]) k none s ts frame rs st) :
    Spoiled (a.Unfit C.sends) (a.Unfit C.sends) (exchange a b st) ∨
      ∃ rs' o, exchange a b st = .finished o ∧ Closed C a b base (Phrase.render [w]) k s rs' o := by
  have hts : ts = [w] := Except.ok.inj (hst.words.symm.trans (speak_finish hw))
  have hframed := hst.framed
  have hparlor := hst.parlor
  rw [hts] at hframed hparlor
  have hplain : ({ s.sandwich with complete := true } : Sandwich).Plain := hC.plain hst.asked
  have hgo := exchange_spec (a := a) (G := a.Unfit C.sends) st
    (Q := fun v seat v' seat' =>
      v = .finished { s.sandwich with complete := true } ∧
      seat.records = [b.turnRecord .server (k + 1) (some (Phrase.render [w])) (some .finish)
        (some { s.sandwich with complete := true }) none] ∧
      v' = .finished (Customer.verdict a s.customer.order (k + 1)
        { s.sandwich with complete := true }) ∧
      seat'.records = [a.turnRecord .judge (k + 1) none none
        (some { s.sandwich with complete := true })
        (some (Scalar.ofRat (s.customer.order.score { s.sandwich with complete := true })))])
    hparlor hst.serving (hp.hear hframed)
    (ends_parted h hp (hC.parts hst.asked) hw (hC.finishes hst.asked (speak_finish hw))) ?_
  · rcases hgo with hspoiled | ⟨v, seat, v', seat', p', -, hpost, hexchange, hshows⟩
    · exact Or.inl hspoiled
    · obtain ⟨rfl, hrecords, rfl, hrecords'⟩ := hpost
      refine Or.inr ⟨_, _, hexchange, hst.turns, hst.asked, rfl, rfl, ?_,
        hst.kept.close (some .finish) (some .finish) none
          (some { s.sandwich with complete := true }) (some { s.sandwich with complete := true })
          (some (Scalar.ofRat (s.customer.order.score { s.sandwich with complete := true })))
          hp.session⟩
      rw [hshows.records, hrecords, hrecords']
      simp [Phrase.text?, Customer.spoken]
  · rintro v seat ⟨frame', rfl, -, hframe', hdid⟩
    refine ⟨frame', _, hdid.frames, hp.hearAnswer hplain hframe', ?_⟩
    rw [hst.waiting]
    refine Customer.ends_left.sure.imp ?_
    rintro v' seat' ⟨rfl, hdid'⟩
    exact ⟨rfl, hdid.records, rfl, hdid'.records⟩

/-- **The greeting is answered**, and the first request made, or the negotiation is spoiled. -/
theorem exchange_greeting {c s : Table ℝ} {frame : Bytes} {p : Parlor ℝ}
    (hw : a.lexicon.wordForUsage .greeting = .ok w)
    (hbefore : Table.Rests (fun s => C.before 0 ⟨c, s, {}⟩) s)
    (hframed : a.Frames (Agent.message [w] none) frame)
    (hparlor : p.Shows c s [] [frame] (base ++ [a.turnRecord .customer 0
      (some (Phrase.render [w])) (some .finish) none none])) :
    Spoiled (a.Unfit C.sends) (a.Unfit C.sends) (exchange a b ⟨⟨.greeting, 0, {}⟩, .await {}, p⟩) ∨
      ∃ x s' ts frame' rs st, exchange a b ⟨⟨.greeting, 0, {}⟩, .await {}, p⟩ = .await st ∧
        Midway C a b base (Phrase.render [w]) 0 x s' ts frame' rs st := by
  have hgo := exchange_spec (a := a) (G := a.Unfit C.sends) ⟨⟨.greeting, 0, {}⟩, .await {}, p⟩
    (Q := fun v seat v' seat' => v = .await ⟨1, true, {}⟩ ∧
      seat.records = [b.turnRecord .server 0 (some (Phrase.render [w])) (some .finish)
        (some {}) none] ∧
      Customer.Continues a (fun x t => C.asked 0 x ⟨t, seat.table, {}⟩) ⟨c, []⟩ 1 {} v' seat')
    hparlor rfl (hp.hear hframed)
    (ends_parted h hp hbefore hw (hC.greets (speak_finish hw)).2) ?_
  · rcases hgo with hspoiled | ⟨v, seat, v', seat', p', -, hpost, hexchange, hshows⟩
    · exact Or.inl hspoiled
    · refine Or.inr ?_
      obtain ⟨rfl, hrecords, w', rfl, hasked⟩ := hpost
      rw [hrecords] at hshows
      have hkept := (kept_nil a b (Phrase.render [w])).round (some (Phrase.render [w]))
        (some (Phrase.render [w])) (some .finish) (some .finish) none (some {}) hp.session
        (fun _ => ⟨rfl, rfl⟩) (fun hne => absurd rfl hne)
      obtain ⟨x, s'', ts, frame', hmidway⟩ := midway_of_asked base
        (s := ⟨c, seat.table, {}⟩) hp.turns hkept (by simp) hasked
        hshows
      exact ⟨x, s'', ts, frame', _, _, hexchange, hmidway⟩
  · rintro v seat ⟨frame', rfl, hrests, hframe', hdid⟩
    refine ⟨frame', _, hdid.frames, hp.hearAnswer Sandwich.plain_empty hframe', ?_⟩
    have hturn := ends_turn h hp hC hrests ⟨c, []⟩ rfl
    refine (Customer.ends_greeted hturn).imp fun v' seat' hv => ⟨rfl, hdid.records, hv⟩

/-! ## 4. The whole conversation -/

omit h hp hC in
/-- A server that is done stays so. -/
theorem serving_converse {r : Except Fault Sandwich} : ∀ (fuel : Nat) {st : Standing ℝ},
    st.serving = .finished r → (converse a b fuel st).serving = .finished r
  | 0, _, hst => hst
  | fuel + 1, st, hst => by
    have hanswer : answer b st.serving st.parlor = (.finished r, st.parlor) := by
      rw [hst]
      rfl
    unfold converse exchange
    rw [hanswer]
    simp only
    generalize reply a st.waiting st.parlor = r'
    obtain ⟨r', p⟩ := r'
    cases r' with
    | error e => rfl
    | ok v =>
      cases v with
      | await w' => exact serving_converse fuel rfl
      | finished o => rfl

omit h hp hC in
theorem converse_of_await {fuel : Nat} {st st' : Standing ℝ}
    (hexchange : exchange a b st = .await st') :
    converse a b (fuel + 1) st = converse a b fuel st' := by
  rw [converse, hexchange]

omit h hp hC in
/-- What is spoiled stays so. -/
theorem spoiled_converse {flaw flaw' : Fault → Prop} (fuel : Nat) {st : Standing ℝ}
    (hspoiled : Spoiled flaw flaw' (exchange a b st)) :
    Spoiled flaw flaw' (.finished (converse a b (fuel + 1) st)) := by
  unfold converse
  generalize exchange a b st = r at hspoiled
  cases r with
  | await st' =>
    obtain ⟨e, he, hserving⟩ := hspoiled
    exact Or.inr ⟨e, he, serving_converse fuel hserving⟩
  | finished o => exact hspoiled

/-- **From the first request to the end**: there are enough exchanges for all turns. -/
theorem converse_midway (hw : a.lexicon.wordForUsage .greeting = .ok w) : ∀ (fuel : Nat) {k : Nat}
    {x : Option Operation} {s : Scene} {ts : List Tagged} {frame : Bytes}
    {rs : List (TurnRecord ℝ)} {st : Standing ℝ},
    Midway C a b base (Phrase.render [w]) k x s ts frame rs st →
    a.config.maxTurns.toNat + 1 ≤ fuel + k →
    Spoiled (a.Unfit C.sends) (a.Unfit C.sends) (.finished (converse a b fuel st)) ∨
      ∃ k' s' rs', Closed C a b base (Phrase.render [w]) k' s' rs' (converse a b fuel st)
  | 0, k, _, _, _, _, _, _, hst, hfuel => by
    have := hst.turns
    omega
  | fuel + 1, k, none, s, ts, frame, rs, st, hst, _ => by
    rcases exchange_leaving h hp hC hw hst with hspoiled | ⟨rs', o, hexchange, hclosed⟩
    · exact Or.inl (spoiled_converse _ hspoiled)
    · refine Or.inr ⟨k, s, rs', ?_⟩
      unfold converse
      rw [hexchange]
      exact hclosed
  | fuel + 1, k, some x, s, ts, frame, rs, st, hst, hfuel => by
    rcases exchange_asking h hp hC hst with
      hspoiled | ⟨x', s', ts', frame', rs', st', hexchange, hst'⟩
    · exact Or.inl (spoiled_converse _ hspoiled)
    · rw [converse_of_await hexchange]
      exact converse_midway hw fuel hst' (by omega)

end

/-! ## 5. A whole negotiation -/

/-- What the end of the conversation makes of a settlement: the customer hangs up. -/
def Over.settled {R : Type} [Scalar R] (b : Agent R) (o : Over R) : Settlement R :=
  let (served, p) := hangUp b o
  ⟨o.outcome, served, ⟨p.customer.table.mind, p.server.table.mind, p.records⟩⟩

/-- A server that is done does not mind. -/
theorem settled_of_finished {b : Agent ℝ} {o : Over ℝ} {r : Except Fault Sandwich}
    (h : o.serving = .finished r) :
    (o.settled b).served = r ∧ (o.settled b).after.records = o.parlor.records := by
  unfold Over.settled hangUp
  rw [h]
  exact ⟨rfl, rfl⟩

/-- A settlement spoiled by a fault of the server, or of the customer, of a kind each. -/
def Settlement.Spoiled (flaw flaw' : Fault → Prop) (z : Settlement ℝ) : Prop :=
  (∃ e, flaw' e ∧ z.outcome = .error e) ∨ ∃ e, flaw e ∧ z.served = .error e

/-- Whether all frames fit: nobody ended with the fault of a message that does not fit. -/
def Settlement.Fits (a : Agent ℝ) (z : Settlement ℝ) : Prop :=
  ∀ e m, a.Refuses m e → z.outcome ≠ .error e ∧ z.served ≠ .error e

/-- What fits is not spoiled. -/
theorem Settlement.Fits.not_spoiled {a : Agent ℝ} {z : Settlement ℝ} (h : z.Fits a)
    (M : Message → Prop) : ¬ z.Spoiled (a.Unfit M) (a.Unfit M) := by
  rintro (⟨e, ⟨m, -, hm⟩, houtcome⟩ | ⟨e, ⟨m, -, hm⟩, hserved⟩)
  · exact (h e m hm).1 houtcome
  · exact (h e m hm).2 hserved

/-- What is not spoiled by messages that all have a frame, fits. -/
theorem Settlement.fits_of_framed {a : Agent ℝ} {z : Settlement ℝ} {M : Message → Prop}
    (hframed : ∀ m, M m → ∃ frame, a.Frames m frame)
    (h : z.Spoiled (a.Unfit M) (a.Unfit M) ∨ ∃ o s, z.outcome = .ok o ∧ z.served = .ok s) :
    z.Fits a := by
  have hfit : ∀ e, ¬ a.Unfit M e := by
    rintro e ⟨m, hm, he⟩
    obtain ⟨frame, hframe⟩ := hframed m hm
    cases hframe.symm.trans he
  rcases h with (⟨e, he, -⟩ | ⟨e, he, -⟩) | ⟨o, s, houtcome, hserved⟩
  · exact absurd he (hfit e)
  · exact absurd he (hfit e)
  · intro e m _
    rw [houtcome, hserved]
    exact ⟨by simp, by simp⟩

theorem spoiled_settled {flaw flaw' : Fault → Prop} {b : Agent ℝ} {o : Over ℝ}
    (h : Spoiled flaw flaw' (.finished o)) : (o.settled b).Spoiled flaw flaw' := by
  rcases h with houtcome | ⟨e, he, hserving⟩
  · exact Or.inl houtcome
  · exact Or.inr ⟨e, he, (settled_of_finished hserving).1⟩

/-- A settlement as it should be, after a number of turns: both sides have the finished sandwich,
and the records are complete. -/
structure Settlement.Proper (a b : Agent ℝ) (base : List (TurnRecord ℝ)) (hello : String)
    (turns : Nat) (o : Order) (sandwich : Sandwich) (z : Settlement ℝ) : Prop where
  bound : (turns : Int) ≤ a.config.maxTurns + 1
  outcome : z.outcome = .ok (Customer.verdict a o turns { sandwich with complete := true })
  served : z.served = .ok { sandwich with complete := true }
  records : ∃ rs, z.after.records = base ++ rs ∧ Minutes a b hello turns rs

section

variable {a server : Agent ℝ} {n : Negotiation ℝ}

/-- A negotiation whose greeting was sent. -/
theorem settle_of_opening {v : Customer.Waiting} {serving : Station Server.Serving Sandwich}
    {p : Parlor ℝ} (h : opening a (joining server a) n = (.ok v, serving, p)) :
    settle a server n = (converse a (joining server a) (a.config.maxTurns.toNat + 3)
      ⟨v, serving, p⟩).settled (joining server a) := by
  unfold settle
  simp only [h]
  rfl

/-- A negotiation whose greeting did not come about. -/
theorem outcome_settle_of_opening {e : Fault} {serving : Station Server.Serving Sandwich}
    {p : Parlor ℝ} (h : opening a (joining server a) n = (.error e, serving, p)) :
    (settle a server n).outcome = .error e := by
  unfold settle
  simp only [h]

/-- Two machines on one line. -/
theorem partners_joining {t : Taxonomy} {words : List (String × Entry)}
    (ha : a.Speaks t words) (hs : server.Speaks t words)
    (hturns : 0 ≤ a.config.maxTurns) (hpatience : Agent.answerTime < a.config.turnTimeout)
    (htime : 0 < server.config.turnTimeout) : Partners t words a (joining server a) :=
  ⟨ha, ⟨hs.lexicon, hs.settled⟩, rfl, rfl, hpatience, htime, hturns⟩

variable {w : Tagged} {largest : Nat} {d : Sandwich} {c : Chance ℝ} {M : Message → Prop}

/-- **The opening**: the order is placed, the greeting sent and the pantry filled, unless the
greeting does not fit. -/
theorem opening_spec (server : Agent ℝ) (hw : a.lexicon.wordForUsage .greeting = .ok w)
    (hlargest : a.lexicon.largestNumber = .ok largest)
    (hdream : (Order.dream a.lexicon.taxonomy n.customer.personality a.config.minFillings
      a.config.maxFillings).perform n.customer.chance = (.ok d, c))
    (hsent : M (Agent.message [w] none)) :
    (∃ e serving p, a.Unfit M e ∧ opening a (joining server a) n = (.error e, serving, p)) ∨
    ∃ frame p, opening a (joining server a) n = (.ok ⟨.greeting, 0, {}⟩, .await {}, p) ∧
      a.Frames (Agent.message [w] none) frame ∧
      p.Shows ⟨Customer.placed a d largest, { n.customer with chance := c }⟩
        (Server.opened (joining server a) n.server) [] [frame]
        (n.records ++ [a.turnRecord .customer 0 (some (Phrase.render [w])) (some .finish)
          none none]) := by
  have hparlor : (⟨Seat.of n.customer, Seat.of n.server, { frameSize := a.config.frameSize },
      n.records⟩ : Parlor ℝ).Shows ⟨{}, n.customer⟩ ⟨{}, n.server⟩ [] [] n.records :=
    ⟨rfl, rfl, rfl, rfl, rfl⟩
  have hstart := Customer.ends_start (a := a) ⟨⟨{}, n.customer⟩, []⟩ hlargest hdream
    (speak_finish hw) hsent
  rcases hparlor.byCustomer hstart with ⟨v, seat, p₁, hpost, hrun, hshows⟩ |
    ⟨e, seat, p₁, he, hrun⟩
  · obtain ⟨rfl, htable, frame, hframe, hdid⟩ := hpost
    have hframes : seat.frames = [frame] := hdid.frames
    have hrecords : seat.records = [a.turnRecord .customer 0 (Phrase.text? [w]) (some .finish)
      none none] := hdid.records
    rw [htable, hframes, hrecords] at hshows
    rcases hshows.byServer (Server.ends_start (joining server a) ⟨⟨{}, n.server⟩, []⟩)
      with ⟨v', seat', p₂, hpost', hrun', hshows'⟩ |
      ⟨e, seat', p₂, he, -⟩
    · obtain ⟨rfl, rfl⟩ := hpost'
      have hframes' : (⟨⟨{}, n.server⟩, []⟩ : Seat ℝ).frames = [] := rfl
      have hrecords' : (⟨⟨{}, n.server⟩, []⟩ : Seat ℝ).records = [] := rfl
      rw [Seat.frames_withTable, Seat.records_withTable, hframes', hrecords', List.append_nil,
        List.append_nil] at hshows'
      refine Or.inr ⟨frame, p₂, ?_, hframe, hshows'⟩
      unfold opening
      simp only [hrun, hrun']
    · exact he.elim
  · refine Or.inl ?_
    unfold opening
    simp only [hrun]
    split
    · exact ⟨e, _, _, he, rfl⟩
    · exact ⟨e, _, _, he, rfl⟩

variable {t : Taxonomy} {words : List (String × Entry)} (h : Lexicon.Sound t words)
  (hp : Partners t words a (joining server a)) {C : Course} (hC : C.Kept a (joining server a))

include h hp hC

/-- **A whole negotiation** on a course, unless it is spoiled. -/
theorem settle_of_kept (hw : a.lexicon.wordForUsage .greeting = .ok w)
    (hlargest : a.lexicon.largestNumber = .ok largest)
    (hdream : (Order.dream a.lexicon.taxonomy n.customer.personality a.config.minFillings
      a.config.maxFillings).perform n.customer.chance = (.ok d, c))
    (hbefore : Table.Rests (fun s => C.before 0
      ⟨⟨Customer.placed a d largest, { n.customer with chance := c }⟩, s, {}⟩)
      (Server.opened (joining server a) n.server)) :
    (settle a server n).Spoiled (a.Unfit C.sends) (a.Unfit C.sends) ∨ ∃ k s, C.asked k none s ∧
      (settle a server n).Proper a (joining server a) n.records (Phrase.render [w]) (k + 1)
        s.customer.order s.sandwich := by
  rcases opening_spec server hw hlargest hdream (hC.greets (speak_finish hw)).1 with
    ⟨e, serving, p, he, hopening⟩ | ⟨frame, p, hopening, hframe, hshows⟩
  · exact Or.inl (Or.inl ⟨e, he, outcome_settle_of_opening hopening⟩)
  · rw [settle_of_opening hopening]
    rcases exchange_greeting h hp hC hw hbefore hframe hshows with
      hspoiled | ⟨x, s', ts, frame', rs, st, hexchange, hmidway⟩
    · exact Or.inl (spoiled_settled (spoiled_converse _ hspoiled))
    · rw [converse_of_await hexchange]
      rcases converse_midway h hp hC hw (a.config.maxTurns.toNat + 2) hmidway (by omega) with
        hspoiled | ⟨k, s, rs, hclosed⟩
      · exact Or.inl (spoiled_settled hspoiled)
      · have hsettled := settled_of_finished (b := joining server a) hclosed.served
        have hturns := hclosed.turns
        exact Or.inr ⟨k, s, hclosed.asked, by push_cast; omega, hclosed.outcome, hsettled.1, rs,
          hsettled.2.trans hclosed.records, hclosed.minutes⟩

end

end Negotiation

end DeliTalk
