import DeliTalk.Proofs.Listening
import DeliTalk.Proofs.Smooth

/-!
# A customer opens and closes its session

Whatever comes back, a customer says one thing at a time: its greeting, then one request for each
reply, then its goodbye, and it is done with the reply to that. No request is a goodbye, and there
are no more requests than turns. What may end a session before that is a reply that does not come or
cannot be read, a message that cannot be sent, or a counter without a logarithm in the first turn.

* `Customer.Amid`: a customer between two messages.
* `Customer.ends_receive`: one reply.
* `Customer.run_brackets`: a whole session.
-/

namespace DeliTalk.Customer

open Act

variable {a : Agent ℝ} {p : Personality ℝ} {replies : List Message} {asked : List Operation}
  {seat : Seat ℝ}

/-! ## 1. What is said and shown -/

/-- The sandwich that was shown last, or the empty one. -/
def lastShown (replies : List Message) : Sandwich :=
  (replies.filterMap (·.sandwich)).getLast?.getD {}

theorem lastShown_concat (replies : List Message) (m : Message) :
    lastShown (replies ++ [m]) = m.sandwich.getD (lastShown replies) := by
  unfold lastShown
  rw [List.filterMap_append]
  cases hs : m.sandwich <;> simp [hs]

/-- Messages that say some operations, in order. -/
def Said (a : Agent ℝ) (xs : List Operation) (sent : List Message) : Prop :=
  List.Forall₂ (fun x m => a.Voices (some x) none m) xs sent

theorem Said.concat {xs : List Operation} {sent : List Message} (h : Said a xs sent)
    {x : Operation} {m : Message} (hm : a.Voices (some x) none m) :
    Said a (xs ++ [x]) (sent ++ [m]) := List.rel_append h (.cons hm .nil)

/-- Requests a customer may put between its greeting and its goodbye. -/
structure Fits (a : Agent ℝ) (asked : List Operation) : Prop where
  requests : .finish ∉ asked
  few : (asked.length : Int) ≤ max a.config.maxTurns 0

theorem fits_nil (a : Agent ℝ) : Fits a [] := ⟨List.not_mem_nil, le_max_right _ _⟩

theorem Fits.concat (h : Fits a asked) {x : Operation} (hx : x ≠ .finish)
    (hlt : (asked.length : Int) < a.config.maxTurns) : Fits a (asked ++ [x]) := by
  refine ⟨?_, ?_⟩
  · rw [List.mem_append, not_or, List.mem_singleton]
    exact ⟨h.requests, hx.symm⟩
  · have := le_max_left a.config.maxTurns 0
    rw [List.length_append, List.length_singleton]
    push_cast
    omega

/-- What a customer has sent at any time: the beginning of a greeting, requests and a goodbye. -/
def Opens (a : Agent ℝ) (sent : List Message) : Prop :=
  ∃ asked xs, Fits a asked ∧ xs <+: .finish :: (asked ++ [.finish]) ∧ Said a xs sent

/-- What a customer says next that has sent some messages. -/
def SaysNext (a : Agent ℝ) (sent : List Message) (x : Operation) : Prop :=
  ∃ asked xs, Fits a asked ∧ xs ++ [x] <+: .finish :: (asked ++ [.finish]) ∧ Said a xs sent

/-- What ends the session of a customer that heard some replies and sent some messages before it
sends another one: a message that cannot be said or sent, a reply that cannot be read, or a counter
below minus one. -/
inductive Fails (a : Agent ℝ) (p : Personality ℝ) (replies sent : List Message) (e : Fault) :
    Prop where
  | sending {x : Operation} (hx : SaysNext a sent x) (h : a.Chokes (some x) none e)
  | reading {m : Message} (hm : m ∈ replies.getLast?) {mind mind' : Mind ℝ}
      (h : (a.understand m.text).perform mind = (.error e, mind'))
  | fading (h : ¬ p.Counted) (hfirst : replies.length = 1) (he : e = .noLogarithm)

/-! ## 2. Between two messages -/

/-- A customer that waits for its next reply. -/
inductive Amid (a : Agent ℝ) (p : Personality ℝ) : List Message → Waiting → Seat ℝ → Prop where
  | greeting {seat : Seat ℝ} (hsaid : Said a [.finish] seat.sent)
      (hready : p.Counted → seat.table.Ready) (hhistory : seat.table.order.history = [])
      (hidle : seat.table.mind.personality = p) : Amid a p [] ⟨.greeting, 0, {}⟩ seat
  | asking {replies : List Message} {asked : List Operation} {seat : Seat ℝ} (hfits : Fits a asked)
      (hsaid : Said a (.finish :: asked) seat.sent) (hlength : replies.length = asked.length)
      (hready : seat.table.Ready) (hcounted : p.Counted) :
      Amid a p replies ⟨.asking, asked.length, lastShown replies⟩ seat
  | leaving {replies : List Message} {asked : List Operation} {seat : Seat ℝ} (hfits : Fits a asked)
      (hsaid : Said a (.finish :: (asked ++ [.finish])) seat.sent)
      (hlength : replies.length = asked.length + 1)
      (hcounted : 1 ≤ a.config.maxTurns → p.Counted) :
      Amid a p replies ⟨.leaving, asked.length + 1, lastShown replies⟩ seat

/-- One message more was sent than replies were heard. -/
theorem Amid.opens {w : Waiting} (h : Amid a p replies w seat) :
    Opens a seat.sent ∧ seat.sent.length = replies.length + 1 := by
  cases h with
  | greeting hsaid =>
    exact ⟨⟨[], _, fits_nil a, ⟨[.finish], rfl⟩, hsaid⟩, hsaid.length_eq.symm⟩
  | asking hfits hsaid hlength =>
    refine ⟨⟨_, _, hfits, ⟨[.finish], rfl⟩, hsaid⟩, ?_⟩
    rw [← hsaid.length_eq, hlength, List.length_cons]
  | leaving hfits hsaid hlength =>
    refine ⟨⟨_, _, hfits, List.prefix_refl _, hsaid⟩, ?_⟩
    rw [← hsaid.length_eq, hlength]
    simp

/-- What a customer may ask for next: no goodbye, and only if there is a turn left. -/
def Seeks (a : Agent ℝ) (turn : Nat) (x : Option Operation) (t : Table ℝ) : Prop :=
  ∀ y ∈ x, y ≠ .finish ∧ (turn : Int) < a.config.maxTurns ∧ t.Ready

theorem seeks_none (a : Agent ℝ) (turn : Nat) (t : Table ℝ) : Seeks a turn none t := by
  intro y hy
  cases hy

theorem seeks_some {turn : Nat} {x : Operation} {t : Table ℝ} (hx : x ≠ .finish)
    (hlt : (turn : Int) < a.config.maxTurns) (ht : t.Ready) : Seeks a turn (some x) t := by
  intro y hy
  cases hy
  exact ⟨hx, hlt, ht⟩

/-- **The next request**, in any language. -/
theorem ends_seek {turn : Nat} {result : Sandwich}
    (hready : (turn : Int) < a.config.maxTurns → seat.table.Ready) :
    Ends (nextRequest a turn result) seat
      (fun x seat' => Seeks a turn x seat'.table ∧ seat'.sent = seat.sent)
      (fun e seat' => a.Stammers e ∧ seat'.sent = seat.sent) := by
  refine (ends_nextRequest (Q := Seeks a turn) (F := a.Stammers) ?_ ?_).mono
    (fun x seat' hx => ?_) fun e seat' he => ?_
  · exact fun _ => seeks_none a turn seat.table
  · intro hlt
    refine (Order.ends_next (hready hlt) result).imp fun x t hx => ?_
    obtain ⟨ht, hrequests, hhistory⟩ := hx
    cases x with
    | none => exact seeks_none a turn t
    | some x =>
      refine ⟨fun e he => Agent.stammers_of_speak he, fun ts _ => ⟨fun _ => ?_, fun _ => ?_⟩⟩
      · exact seeks_some (hrequests x rfl) hlt ht
      · -- what there are no words for is taken back
        obtain ⟨rest, hretract⟩ := Order.exists_retract (hhistory (by simp))
        exact ⟨_, _, hretract, seeks_some (by simp) hlt (ht.withOrder ht.count)⟩
  · obtain ⟨t, hseeks, rfl⟩ := hx
    exact ⟨hseeks, rfl⟩
  · obtain ⟨hstammers, t, rfl⟩ := he
    exact ⟨hstammers, rfl⟩

theorem Seeks.withChance {turn : Nat} {x : Option Operation} {t : Table ℝ} (h : Seeks a turn x t)
    {c : Chance ℝ} (hc : t.mind.chance.Drawn c) : Seeks a turn x (t.withChance c) := by
  intro y hy
  obtain ⟨hother, hlt, ht⟩ := h y hy
  exact ⟨hother, hlt, ht.withChance (hc.proper ht.mind.chance)⟩

/-- **A request follows, or the goodbye.** -/
theorem ends_ask_amid (hfits : Fits a asked) (hsaid : Said a (.finish :: asked) seat.sent)
    (hlength : replies.length = asked.length + 1) (hcounted : 1 ≤ a.config.maxTurns → p.Counted)
    (hready : (asked.length : Int) < a.config.maxTurns → seat.table.Ready) :
    Ends (ask a asked.length (lastShown replies)) seat (fun w => Amid a p replies w)
      (fun e seat' => Fails a p replies seat.sent e ∧ seat'.sent = seat.sent) := by
  have hgoodbye : SaysNext a seat.sent .finish :=
    ⟨asked, _, hfits, List.prefix_refl _, hsaid⟩
  unfold ask
  rw [ends_bind]
  refine (ends_seek hready).mono (fun x seat₁ h₁ => ?_)
    fun e seat' he => ⟨.sending hgoodbye (Or.inl he.1), he.2⟩
  rw [ends_bind]
  refine (a.ends_pause seat₁).sure.imp fun _ seat₂ h₂ => ?_
  obtain ⟨c, hc, rfl⟩ := h₂
  have hseeks := h₁.1.withChance hc
  -- the goodbye or one more request
  have hnext : SaysNext a seat.sent (spoken x) ∧ ∀ y ∈ x, Fits a (asked ++ [y]) := by
    cases x with
    | none => exact ⟨hgoodbye, by simp⟩
    | some y =>
      have hmore := hfits.concat (hseeks y rfl).1 (hseeks y rfl).2.1
      refine ⟨⟨_, _, hmore, ⟨[.finish], rfl⟩, hsaid⟩, ?_⟩
      intro z hz
      cases hz
      exact hmore
  rw [ends_bind]
  refine (a.ends_voice _ none _).mono (fun _ seat₃ h₃ => ?_)
    fun e seat' he => ⟨.sending hnext.1 he.2, he.1.trans h₁.2⟩
  obtain ⟨htable, m, hm, hsent⟩ := h₃
  have hsent' : seat₃.sent = seat.sent ++ [m] := by
    rw [hsent, ← h₁.2]
    rfl
  have hsaid' := hsaid.concat hm
  rw [← hsent', List.cons_append] at hsaid'
  cases x with
  | none => exact .leaving hfits hsaid' hlength hcounted
  | some x =>
    obtain ⟨-, hlt, ht⟩ := hseeks x rfl
    have hlast : (asked ++ [x]).length = asked.length + 1 := by simp
    rw [← hlast]
    exact .asking (hnext.2 x rfl) hsaid' (hlength.trans hlast.symm) (htable ▸ ht)
      (hcounted (by omega))

/-! ## 3. One reply -/

/-- What holds once a customer is done: it said a greeting, requests and a goodbye, as many messages
as it heard replies, and the outcome tells the sandwich and the turns. -/
structure Closes (a : Agent ℝ) (p : Personality ℝ) (replies : List Message) (o : Outcome ℝ)
    (seat : Seat ℝ) : Prop where
  said : ∃ asked, .finish ∉ asked ∧ Said a (.finish :: (asked ++ [.finish])) seat.sent
  alternates : seat.sent.length = replies.length
  few : (seat.sent.length : Int) ≤ max a.config.maxTurns 0 + 2
  result : o.result = lastShown replies
  turns : o.turns + 1 = seat.sent.length
  counted : 1 ≤ a.config.maxTurns → p.Counted

/-- What holds if a customer fails after its last reply: it sent nothing in return. -/
def Stuck (a : Agent ℝ) (p : Personality ℝ) (replies : List Message) (e : Fault)
    (seat : Seat ℝ) : Prop :=
  Fails a p replies seat.sent e ∧ Opens a seat.sent ∧ seat.sent.length = replies.length

theorem Amid.stuck {w : Waiting} (h : Amid a p replies w seat) {m : Message} {e : Fault}
    {seat' : Seat ℝ} (he : Fails a p (replies ++ [m]) seat.sent e)
    (hsent : seat'.sent = seat.sent) : Stuck a p (replies ++ [m]) e seat' := by
  obtain ⟨hopens, hlength⟩ := h.opens
  rw [← hsent] at hopens hlength he
  exact ⟨he, hopens, by simpa using hlength⟩

/-- A customer that heard something can still go on, whatever its order makes of it. -/
theorem ready_hear {t : Table ℝ} (h : t.Ready) {mind : Mind ℝ} (hmind : t.mind.Attends mind)
    {o : Order} (ho : o.maxCount = t.order.maxCount) : (⟨o, mind⟩ : Table ℝ).Ready := by
  obtain ⟨cloud, c, hc, rfl⟩ := hmind
  exact ⟨⟨h.mind.counted, hc.proper h.mind.chance⟩, h.fond, ho ▸ h.count⟩

/-- **The first reply**: a request follows, or the goodbye. -/
theorem ends_greeted_any (m : Message) (hsaid : Said a [.finish] seat.sent)
    (hready : p.Counted → seat.table.Ready) (hhistory : seat.table.order.history = [])
    (hidle : seat.table.mind.personality = p) :
    Ends (ask a 0 (lastShown [m])) seat (fun w => Amid a p [m] w)
      (fun e seat' => Fails a p [m] seat.sent e ∧ seat'.sent = seat.sent) := by
  -- nothing was asked for yet
  have hlength : [m].length = ([] : List Operation).length + 1 := rfl
  by_cases hturns : 1 ≤ a.config.maxTurns
  · by_cases hcounted : p.Counted
    · have hask := ends_ask_amid (fits_nil a) hsaid hlength (fun _ => hcounted)
        fun _ => hready hcounted
      exact hask
    · rw [← hidle] at hcounted
      refine (ends_ask_faded hcounted hhistory (by omega) _).mono (fun _ _ => False.elim)
        fun e seat' he => ⟨.fading ?_ rfl he.1, he.2⟩
      rw [← hidle]
      exact hcounted
  · have hnone : ¬ (([] : List Operation).length : Int) < a.config.maxTurns := by
      rw [List.length_nil]
      omega
    have hask := ends_ask_amid (p := p) (fits_nil a) hsaid hlength (fun h => absurd h hturns)
      fun hlt => absurd hlt hnone
    exact hask

/-- **A later reply**: it is heeded if it is understood, and a request follows, or the goodbye. -/
theorem ends_heeded (m : Message) (hfits : Fits a asked)
    (hsaid : Said a (.finish :: asked) seat.sent) (hlength : replies.length = asked.length)
    (hready : seat.table.Ready) (hcounted : p.Counted) :
    Ends (receive a ⟨.asking, asked.length, lastShown replies⟩ m) seat
      (fun q seat' => ∃ w, q = .await w ∧ Amid a p (replies ++ [m]) w seat')
      (fun e seat' => Fails a p (replies ++ [m]) seat.sent e ∧ seat'.sent = seat.sent) := by
  have hlength' : (replies ++ [m]).length = asked.length + 1 := by simpa using hlength
  have hlast : ∀ seat₁ : Seat ℝ, seat₁.table.Ready → seat₁.sent = seat.sent →
      Ends (do
        Seat.save
        return Progress.await (← ask a asked.length (lastShown (replies ++ [m])))) seat₁
      (fun (q : Progress Waiting (Outcome ℝ)) seat' =>
        ∃ w, q = .await w ∧ Amid a p (replies ++ [m]) w seat')
      (fun e seat' => Fails a p (replies ++ [m]) seat.sent e ∧ seat'.sent = seat.sent) := by
    intro seat₁ hready₁ hsent₁
    have hsent₂ : (seat₁.noting (.saved seat₁.personality)).sent = seat.sent :=
      Seat.sent_saved.trans hsent₁
    have hsaid₂ := hsaid
    rw [← hsent₂] at hsaid₂
    rw [ends_bind, Seat.ends_save, ends_bind]
    refine (ends_ask_amid hfits hsaid₂ hlength' (fun _ => hcounted) fun _ => hready₁).mono
      (fun w seat' hw => ⟨w, rfl, hw⟩) fun e seat' he => ?_
    exact ⟨hsent₂ ▸ he.1, he.2.trans hsent₂⟩
  unfold receive
  simp only
  rw [← lastShown_concat, ends_bind, Seat.ends_emit, ends_bind, Seat.ends_minded]
  refine (a.ends_attend m.text _).performs.mono (fun r mind hr => ?_) fun e mind he => ?_
  · have hshown : ∀ render : Render, ((seat.noting (.shown render)).withMind mind).sent =
        seat.sent := fun _ => Seat.sent_shown
    cases r with
    | none => exact hlast _ (ready_hear hready hr.2.2 rfl) (hshown _)
    | some reading =>
      simp only
      rw [ends_bind, Seat.ends_atTable, Table.ends_reorder]
      exact hlast _ (ready_hear hready hr.2.2 (Order.maxCount_hear _ _)) (hshown _)
  · exact ⟨.reading (m := m) (by simp) he.1, Seat.sent_shown⟩

theorem closes_of_said (hfits : Fits a asked)
    (hsaid : Said a (.finish :: (asked ++ [.finish])) seat.sent)
    (hlength : replies.length = asked.length + 2) (hcounted : 1 ≤ a.config.maxTurns → p.Counted)
    {o : Outcome ℝ} (hresult : o.result = lastShown replies)
    (hturns : o.turns = (asked.length + 1 : Nat)) : Closes a p replies o seat := by
  have hsent : seat.sent.length = asked.length + 2 := by
    rw [← hsaid.length_eq]
    simp
  have hfew := hfits.few
  refine ⟨⟨asked, hfits.requests, hsaid⟩, hsent.trans hlength.symm, ?_, hresult, ?_, hcounted⟩
  · rw [hsent]
    push_cast
    omega
  · rw [hturns, hsent]
    push_cast
    omega

/-- **The last reply**: the customer is done, and it sends nothing more. -/
theorem ends_left_any (m : Message) (hfits : Fits a asked)
    (hsaid : Said a (.finish :: (asked ++ [.finish])) seat.sent)
    (hlength : replies.length = asked.length + 1)
    (hcounted : 1 ≤ a.config.maxTurns → p.Counted) :
    Ends (receive a ⟨.leaving, asked.length + 1, lastShown replies⟩ m) seat
      (fun q seat' => ∃ o, q = .finished o ∧ Closes a p (replies ++ [m]) o seat') never := by
  unfold receive conclude
  simp only [ends_bind, Seat.ends_emit, ends_get, Seat.ends_minded, Mind.change, ends_modify,
    Seat.ends_save, ends_pure]
  rw [← lastShown_concat]
  refine ⟨_, rfl, closes_of_said hfits ?_ (by simpa using hlength) hcounted rfl rfl⟩
  rw [Seat.sent_recorded, Seat.sent_saved, Seat.sent_withMind, Seat.sent_shown]
  exact hsaid

/-- **One reply**: the customer asks for the next thing, says goodbye, or is done. -/
theorem ends_receive {w : Waiting} (h : Amid a p replies w seat) (m : Message) :
    Ends (receive a w m) seat
      (Onward (Amid a p (replies ++ [m])) (Closes a p (replies ++ [m])))
      (Stuck a p (replies ++ [m])) := by
  have hstuck : ∀ (e : Fault) (seat' : Seat ℝ),
      Fails a p (replies ++ [m]) seat.sent e ∧ seat'.sent = seat.sent →
      Stuck a p (replies ++ [m]) e seat' := fun e seat' he => h.stuck he.1 he.2
  cases h with
  | greeting hsaid hready hhistory hidle =>
    unfold receive
    simp only
    rw [ends_bind, show m.sandwich.getD {} = lastShown [m] from (lastShown_concat [] m).symm]
    exact (ends_greeted_any m hsaid hready hhistory hidle).mono (fun w seat' hw => hw) hstuck
  | asking hfits hsaid hlength hready hcounted =>
    refine (ends_heeded m hfits hsaid hlength hready hcounted).mono (fun q seat' hq => ?_) hstuck
    obtain ⟨w, rfl, hw⟩ := hq
    exact hw
  | leaving hfits hsaid hlength hcounted =>
    refine (ends_left_any m hfits hsaid hlength hcounted).sure.imp fun q seat' hq => ?_
    obtain ⟨o, rfl, ho⟩ := hq
    exact ho

/-! ## 4. A whole session -/

/-- **The greeting**, its order placed. -/
theorem ends_start_any (a : Agent ℝ) {m : Mind ℝ} (hproper : m.chance.Proper)
    (hfond : m.personality.Fond) :
    Ends (start a) (Seat.of m) (fun w => Amid a m.personality [] w) (Stuck a m.personality []) := by
  have hnext : SaysNext a [] .finish := ⟨[], [], fits_nil a, ⟨[.finish], rfl⟩, .nil⟩
  have hstuck : ∀ {e : Fault} {seat' : Seat ℝ}, a.Chokes (some .finish) none e →
      seat'.sent = [] → Stuck a m.personality [] e seat' := by
    intro e seat' he hsent
    unfold Stuck
    rw [hsent]
    exact ⟨.sending hnext he, ⟨[], [], fits_nil a, List.nil_prefix, .nil⟩, rfl⟩
  unfold start place
  rw [ends_bind, ends_bind]
  cases hlargest : a.lexicon.largestNumber with
  | error e => exact hstuck (Or.inl (Agent.stammers_of_largestNumber hlargest)) rfl
  | ok largest =>
    rw [ends_ok, ends_bind, ends_get, ends_bind]
    unfold Seat.lucky
    rw [Seat.ends_atTable]
    refine (Table.ends_lucky (Order.yields_dream _ _ _ _) hproper).sure.imp fun desired t ht => ?_
    obtain ⟨-, c, hc, rfl⟩ := ht
    rw [Seat.ends_atTable, Table.ends_reorder, ends_bind]
    refine (a.ends_voice _ none _).mono (fun _ seat' h => ?_) fun e seat' he => hstuck he.2 he.1
    obtain ⟨htable, reply, hreply, hsent⟩ := h
    have hready : m.personality.Counted → seat'.table.Ready := by
      intro hcounted
      rw [htable]
      exact ⟨⟨hcounted, hc⟩, hfond, le_max_left 1 (largest : Int)⟩
    refine .greeting ?_ hready (by rw [htable]; rfl) (by rw [htable]; rfl)
    rw [hsent]
    exact .cons hreply .nil

/-- **A customer opens and closes its session**, whatever comes in. If the session ends at all, it
was a greeting, requests and a goodbye, with a reply to each of them and nothing after the last, and
as many requests as there are turns at most. If it breaks off, it does so in the middle of just such
a session: waiting for a reply to its last message, or before the next message, for one of the
reasons there are. -/
theorem run_brackets (a : Agent ℝ) {m : Mind ℝ} (hproper : m.chance.Proper)
    (hfond : m.personality.Fond) (frames : List Bytes) :
    Ends (run a frames) (Seat.of m)
      (fun o seat => ∃ replies rest, a.Took frames replies rest ∧
        Closes a m.personality replies o seat)
      (fun e seat => ∃ replies rest, a.Took frames replies rest ∧ Opens a seat.sent ∧
        (seat.sent.length = replies.length + 1 ∧ a.Misses rest e ∨
          seat.sent.length = replies.length ∧ Fails a m.personality replies seat.sent e)) := by
  unfold run
  rw [ends_bind]
  refine (ends_start_any a hproper hfond).mono (fun w seat hw => ?_) fun e seat he => ?_
  · have hstep : ∀ replies reply w seat, Amid a m.personality replies w seat →
        Ends (receive a w reply) seat (Onward (Amid a m.personality (replies ++ [reply]))
          (Closes a m.personality (replies ++ [reply])))
          (Stuck a m.personality (replies ++ [reply])) :=
      fun replies reply w seat h => ends_receive h reply
    refine (ends_listen hstep frames [] w seat hw).mono (fun o seat' h => h) fun e seat' h => ?_
    obtain ⟨replies, rest, htook, ⟨w', hw', hmisses⟩ | hstuck⟩ := h
    · exact ⟨replies, rest, htook, hw'.opens.1, Or.inl ⟨hw'.opens.2, hmisses⟩⟩
    · exact ⟨replies, rest, htook, hstuck.2.1, Or.inr ⟨hstuck.2.2, hstuck.1⟩⟩
  · exact ⟨[], frames, Agent.took_nothing frames, he.2.1, Or.inr ⟨he.2.2, he.1⟩⟩

/-! ## 5. In the house -/

namespace House

open Negotiation.House

/-- A machine of the house that has one turn. -/
noncomputable def brief : Agent ℝ :=
  { machine with config := { machine.config with maxTurns := 1 } }

/-- A filling of the house. -/
def tomato : Ingredient := Taxonomy.House.item "tomato" "to"

/-- A mind that likes tomatoes and gives in to every impulse. -/
noncomputable def eager : Mind ℝ :=
  ⟨{ mind.personality with spontaneity := 1, stress := 1, favorites := [⟨tomato, 1⟩] },
    mind.chance⟩

/-- The half of its bread that it asks for first. -/
def half : Ingredient := Taxonomy.House.item "white-bread-bottom" "li"

/-- The bread it dreams of, with the tomato it comes to crave. -/
def craved : Sandwich := { bread with ingredients := bread.ingredients.insertIdx 1 tomato }

theorem speaks_brief : brief.Speaks Taxonomy.house Lexicon.houseWords := ⟨rfl, rfl⟩

theorem fond_eager : eager.personality.Fond := by
  intro f hf
  rw [List.mem_singleton.mp hf]
  norm_num

/-! ### What it asks for -/

/-- **Its impulse** puts a tomato into the bread, whatever the draws are. -/
theorem yields_impulse_eager :
    Yields (Order.impulse eager.personality bread 0) (· = (craved, 0)) := by
  have hfavorites : eager.personality.favorites = [⟨tomato, 1⟩] := rfl
  have hcertain : (1 : ℝ) ≤ eager.personality.spontaneity * eager.personality.stress := by
    show (1 : ℝ) ≤ 1 * 1
    norm_num
  have huncovered :
      bread.ingredients.any (Order.anyIncludes eager.personality.favorites) = false := rfl
  have hweight := Order.weight_pos fond_eager
  unfold Order.impulse
  rw [hfavorites, if_neg (by simp)]
  refine yields_bind (yields_roll_one hcertain) fun impulsive himpulsive => ?_
  rw [himpulsive, if_pos rfl, ← hfavorites, huncovered, if_neg Bool.false_ne_true]
  unfold Order.crave
  refine yields_bind (yields_pickWeighted (by simp [hfavorites]) hweight) fun favorite hmem => ?_
  rw [hfavorites, List.mem_singleton] at hmem
  subst hmem
  -- there is one place inside a bread
  refine yields_bind (yields_drawBelow Nat.one_pos) fun n hn => ?_
  obtain ⟨k, rfl, hk⟩ := hn
  obtain rfl := Nat.lt_one_iff.mp hk
  exact yields_pure rfl

/-- **The first wish** is for the half below the tomato. -/
theorem yields_askNext_eager {p : Personality ℝ} (hshy : p.shyness = 0) {o : Order}
    (hcount : 1 ≤ o.maxCount) :
    Yields (Order.askNext p o {} (Wish.listOf (Order.anyIncludes ([] : List (Preference ℝ)))
      craved {}) 0) fun x => ∃ y, x = some y ∧ Operation.Portion half 1 y := by
  have hwanted : Order.wanted? (Wish.listOf (Order.anyIncludes ([] : List (Preference ℝ)))
    craved {}) 0 = some 0 := rfl
  have hfirst : (Wish.listOf (Order.anyIncludes ([] : List (Preference ℝ))) craved {})[0]? =
    some ⟨half, false, false⟩ := rfl
  refine Order.yields_askNext_wanted hcount {} hwanted hfirst (Order.yields_rollShy_bold hshy)
    nofun ⟨_, rfl, .once⟩ fun x hx => ?_
  obtain ⟨n, hpos, hn, rfl⟩ := Order.severalAtOnce_spec hx
  have hrun : Order.runLength (Wish.listOf (Order.anyIncludes ([] : List (Preference ℝ)))
    craved {}) 0 half = 1 := rfl
  rw [hrun] at hn
  obtain rfl : n = 1 := by omega
  exact ⟨_, rfl, .several 1⟩

/-- Somebody like this at its table before its first turn, whatever it learned and whatever its
source is. -/
structure Sits (t : Table ℝ) : Prop where
  personality : ∃ l r, t.mind.personality = eager.personality.practised l r
  ready : t.mind.Ready
  desired : t.order.desired = bread
  count : 1 ≤ t.order.maxCount
  history : t.order.history = []
  going : t.order.gaveUp = false

theorem sits_placed (largest : Nat) {c : Chance ℝ} (hc : c.Proper) :
    Sits ⟨placed brief bread largest, { eager with chance := c }⟩ :=
  ⟨⟨_, _, rfl⟩, ⟨counted, hc⟩, rfl, le_max_left 1 (largest : Int), rfl, rfl⟩

/-- What it asks for first, and what it wants by then. -/
structure AsksHalf (x : Option Operation) (t : Table ℝ) : Prop where
  portion : ∃ y, x = some y ∧ Operation.Portion half 1 y
  desired : t.order.desired = craved
  chance : t.mind.chance.Proper

variable {t : Table ℝ}

theorem ends_askOnward_eager (h : Sits t) :
    Ends (Order.askOnward t.mind.personality [] {} 0) t AsksHalf never := by
  obtain ⟨l, r, hpersonality⟩ := h.personality
  have himpulse : Yields (Order.impulse t.mind.personality bread 0) (· = (craved, 0)) := by
    rw [hpersonality]
    exact yields_impulse_eager
  have hshy : t.mind.personality.shyness = 0 := by
    rw [hpersonality]
    rfl
  unfold Order.askOnward
  rw [ends_bind, ends_get, ends_bind, h.desired]
  refine (Table.ends_lucky himpulse h.ready.chance).imp fun a t₁ h₁ => ?_
  obtain ⟨rfl, c₁, hc₁, rfl⟩ := h₁
  simp only
  rw [ends_bind, Table.ends_reorder, ends_bind]
  have hask := yields_askNext_eager hshy (o := { t.order with desired := craved }) h.count
  refine (Table.ends_lucky hask hc₁).imp fun x t₂ h₂ => ?_
  obtain ⟨⟨y, rfl, hy⟩, c₂, hc₂, rfl⟩ := h₂
  split
  · rename_i hquestion
    cases hy <;> cases hquestion
  · exact ⟨⟨y, rfl, hy⟩, rfl, hc₂⟩

theorem ends_pick_eager (h : Sits t) : Ends (Order.pick {}) t AsksHalf never := by
  obtain ⟨l, r, hpersonality⟩ := h.personality
  have hallergies : t.mind.personality.allergies = [] := by
    rw [hpersonality]
    rfl
  have hforgetfulness : t.mind.personality.forgetfulness = 0 := by
    rw [hpersonality]
    rfl
  have hnames : 0 < t.order.desired.names.length := by
    rw [h.desired]
    decide
  refine Order.ends_pick_onward yields_roll_zero hallergies hforgetfulness h.ready.chance hnames rfl
    fun c hc => ?_
  exact ends_askOnward_eager (t := t.withChance c)
    ⟨⟨l, r, hpersonality⟩, ⟨h.ready.counted, hc⟩, h.desired, h.count, h.history, h.going⟩

/-- **Its first turn.** -/
theorem ends_next_eager (h : Sits t) : Ends (Order.next {}) t AsksHalf never := by
  obtain ⟨l, r, hpersonality⟩ := h.personality
  unfold Order.next
  rw [ends_bind, ends_get]
  simp only [h.history]
  unfold Order.proceed
  rw [ends_bind]
  refine (Table.ends_fade h.ready.counted []).imp fun _ t₁ h₁ => ?_
  obtain ⟨l₁, r₁, rfl, hcounted⟩ := h₁
  have hpractised : t.mind.personality.practised l₁ r₁ = eager.personality.practised l₁ r₁ := by
    rw [hpersonality]
    rfl
  have hsits : Sits (t.withPersonality (t.mind.personality.practised l₁ r₁)) :=
    ⟨⟨l₁, r₁, hpractised⟩, ⟨hcounted, h.ready.chance⟩, h.desired, h.count, h.history, h.going⟩
  generalize t.withPersonality (t.mind.personality.practised l₁ r₁) = t₁ at hsits ⊢
  rw [ends_bind, ends_get, hsits.going, if_neg Bool.false_ne_true, if_neg Bool.false_ne_true,
    ends_bind]
  refine (ends_pick_eager hsits).imp fun x t₂ h₂ => ?_
  obtain ⟨⟨y, rfl, hy⟩, hdesired, hproper⟩ := h₂
  exact ⟨⟨y, rfl, hy⟩, hdesired, hproper⟩

/-! ### Its session -/

/-- What it says. -/
def Says (m : Message) : Prop :=
  ∃ x ∈ requests, ∃ ts, Agent.speak Lexicon.house x = .ok ts ∧ m = Agent.message ts none

/-- All of it fits. -/
theorem not_unfit {e : Fault} : ¬ brief.Unfit Says e := by
  intro hunfit
  obtain ⟨m, ⟨x, hx, ts, hts, rfl⟩, hrefuses⟩ := hunfit
  obtain ⟨frame, hframe⟩ := framed_of_mem hx List.mem_cons_self hts
  cases hframe.symm.trans hrefuses

/-- A half is asked for by saying so. -/
theorem mem_requests_half {y : Operation} (hy : Operation.Portion half 1 y) : some y ∈ requests :=
  mem_requests (Or.inr (Or.inr ⟨1, half, hy, List.mem_cons_self, by decide⟩))

/-- **The first request** is for a half. -/
theorem ends_ask_half {seat : Seat ℝ} (h : Sits seat.table) :
    Ends (ask brief 0 {}) seat (Asked brief AsksHalf seat 1 {})
      (fun e _ => brief.Unfit Says e) := by
  have hvoices : ∀ x t, AsksHalf x t → Voices brief AsksHalf x t := by
    intro x t hx
    obtain ⟨y, rfl, hy⟩ := hx.portion
    obtain ⟨largest, -, hone, hnumbers⟩ := countsUp
    obtain ⟨ts, hts, hne, -⟩ := Agent.hears_portion Lexicon.sound_house speaks_brief speaks_brief
      (i := half) (by decide +kernel) Nat.one_ne_zero hy (hnumbers 1 (Nat.le_refl 1) hone)
    exact ⟨ts, hts, fun _ => hx, fun hnil => absurd hnil hne⟩
  have hturn : ((0 : Nat) : Int) < brief.config.maxTurns := Int.one_pos
  refine ends_ask ?_ (fun x t hx => ?_) (fun x => ?_) fun x t ts hx hts => ?_
  · refine (ends_nextRequest (Q := AsksHalf) (F := fun _ => False)
      (fun hdone => absurd hturn hdone) fun _ => ?_).mono ?_ fun e seat' he => he.1
    · exact (ends_next_eager h).imp fun x t hx => (hvoices x t hx).utters
    · intro x seat' hx
      obtain ⟨t, hx, rfl⟩ := hx
      exact ⟨hx, Seat.did_withTable _ _⟩
  · exact ⟨hx.chance, fun c' hc' => ⟨hx.portion, hx.desired, hc'⟩⟩
  · exact speaks_brief.speak Lexicon.sound_house (some x)
  · obtain ⟨y, rfl, hy⟩ := hx.portion
    exact ⟨_, mem_requests_half hy, ts, hts, rfl⟩

/-- What it has for a goodbye, and what it still wants by then. -/
def PartsWith (x : Option Operation) (t : Table ℝ) : Prop :=
  x = none ∧ t.order.desired = craved ∧ t.mind.chance.Proper

/-- **Its only turn is over**: it says goodbye, whatever was shown. -/
theorem ends_ask_goodbye {seat : Seat ℝ} (hdesired : seat.table.order.desired = craved)
    (hchance : seat.table.mind.chance.Proper) (result : Sandwich) :
    Ends (ask brief 1 result) seat (Asked brief PartsWith seat 2 result)
      (fun e _ => brief.Unfit Says e) := by
  have hturns : ¬ ((1 : Nat) : Int) < brief.config.maxTurns := lt_irrefl (1 : Int)
  refine ends_ask ?_ (fun x t hx => ?_) (fun x => ?_) fun x t ts hx hts => ?_
  · refine (ends_nextRequest (Q := PartsWith) (F := fun _ => False)
      (fun _ => ⟨rfl, hdesired, hchance⟩) fun hlt => absurd hlt hturns).mono ?_
      fun e seat' he => he.1
    intro x seat' hx
    obtain ⟨t, hx, rfl⟩ := hx
    exact ⟨hx, Seat.did_withTable _ _⟩
  · exact ⟨hx.2.2, fun c hc => ⟨hx.1, hx.2.1, hc⟩⟩
  · exact speaks_brief.speak Lexicon.sound_house (some x)
  · obtain ⟨rfl, -⟩ := hx
    exact ⟨some .finish, by simp [requests], ts, hts, rfl⟩

/-- A half on its own. -/
def shown : Sandwich := Taxonomy.house.stack (bread.names.take 1)

/-- **It dreams of bread**, whatever it would like on it. -/
theorem dreams_eager : ∃ c : Chance ℝ, c.Proper ∧ (Order.dream brief.lexicon.taxonomy
    eager.personality brief.config.minFillings brief.config.maxFillings).perform eager.chance =
      (.ok bread, c) := by
  obtain ⟨planned, hplanned⟩ : ∃ planned, (Order.rollPlanned eager.personality
      eager.personality.favorites).perform eager.chance =
        (.ok planned, .scripted (fun _ => (0 : ℝ)) 1) := ⟨_, rfl⟩
  exact ⟨.scripted (fun _ => 0) 3, proper, perform_dream rfl hplanned⟩

/-- **Its session**: it says hello, asks for a half, and says goodbye. -/
theorem ends_session {ts : List Tagged} (hts : Agent.speak Lexicon.house (some .finish) = .ok ts)
    {hello answer bye : Bytes} (hhello : brief.hear hello = .ok (Agent.message ts (some {})))
    (hanswer : brief.hear answer = .ok (Agent.message [] (some shown)))
    (hbye : brief.hear bye = .ok (Agent.message ts (some { shown with complete := true }))) :
    Ends (run brief [hello, answer, bye]) (Seat.of eager)
      (fun o _ => o.turns = 2 ∧ o.desired = craved ∧ o.result = { shown with complete := true })
      (fun e _ => brief.Unfit Says e) := by
  obtain ⟨largest, hlargest, -⟩ := countsUp
  obtain ⟨c, hc, hdream⟩ := dreams_eager
  unfold run
  rw [ends_bind]
  refine (ends_start (a := brief) (Seat.of eager) hlargest hdream hts
    ⟨some .finish, by simp [requests], ts, hts, rfl⟩).imp fun w seat h => ?_
  obtain ⟨rfl, htable, -⟩ := h
  have hsits : Sits seat.table := by
    rw [htable]
    exact sits_placed largest hc
  rw [ends_listen_cons hhello]
  refine (ends_greeted (ends_ask_half hsits)).imp fun p seat₁ h₁ => ?_
  obtain ⟨w, rfl, x, -, -, rfl, hasks, -⟩ := h₁
  obtain ⟨y, rfl, -⟩ := hasks.portion
  simp only
  rw [ends_listen_cons hanswer]
  have hhear : Ends (brief.understand none) seat₁.table.mind
      (fun r m => heeded seat₁.table.order r = seat₁.table.order ∧ m = seat₁.table.mind) never :=
    ⟨rfl, rfl⟩
  refine (ends_answered (P := fun t => t.order.desired = craved ∧ t.mind.chance.Proper)
    (hhear.imp fun r m hr => ?_) fun seat' h => ends_ask_goodbye h.1 h.2 shown).imp
    fun p seat₂ h₂ => ?_
  · rw [hr.1, hr.2]
    exact ⟨hasks.desired, hasks.chance⟩
  obtain ⟨w, rfl, x, -, -, rfl, ⟨rfl, hdesired, -⟩, -⟩ := h₂
  simp only
  rw [ends_listen_cons hbye]
  refine ends_left.sure.imp fun p seat₃ h₃ => ?_
  obtain ⟨rfl, -⟩ := h₃
  exact ⟨rfl, hdesired, rfl⟩

/-- **Somebody with a favorite and one turn** says hello, asks for one thing, and says goodbye to a
server that shows a sandwich each time. -/
theorem brackets_bread : eager.chance.Proper ∧ eager.personality.Fond ∧
    eager.personality.favorites ≠ [] ∧ ∃ frames x o seat,
      (run brief frames).perform (Seat.of eager) = (.ok o, seat) ∧
      x ≠ .finish ∧ Said brief [.finish, x, .finish] seat.sent ∧
      o.result.names = ["white-bread-bottom"] ∧
      o.desired.names = ["white-bread-bottom", "tomato", "white-bread-top"] := by
  obtain ⟨ts, hts⟩ := speaks_brief.speak Lexicon.sound_house (some .finish)
  have hsilence : Agent.speak Lexicon.house none = .ok [] := rfl
  have hfinish : some .finish ∈ requests := by simp [requests]
  obtain ⟨hello, hhello⟩ := framed_of_mem hfinish (mem_sights (Nat.zero_lt_succ 2) false) hts
  obtain ⟨answer, hanswer⟩ :=
    framed_of_mem List.mem_cons_self (mem_sights (Nat.one_lt_succ_succ 1) false) hsilence
  obtain ⟨bye, hbye⟩ := framed_of_mem hfinish (mem_sights (Nat.one_lt_succ_succ 1) true) hts
  have hplain : ∀ complete, ({ shown with complete := complete } : Sandwich).Plain :=
    fun complete => Taxonomy.house.plain_stack _
  have hends := ends_session hts
    (Agent.hear_of_frames hhello (Sandwich.plain_empty.shallow ts) time)
    (Agent.hear_of_frames hanswer ((hplain false).shallow []) time)
    (Agent.hear_of_frames hbye ((hplain true).shallow ts) time)
  have hbrackets := run_brackets brief (m := eager) proper fond_eager [hello, answer, bye]
  refine ⟨proper, fond_eager, by simp [eager], [hello, answer, bye], ?_⟩
  unfold Ends at hends hbrackets
  generalize (run brief [hello, answer, bye]).perform (Seat.of eager) = r at hends hbrackets ⊢
  obtain ⟨r, seat⟩ := r
  cases r with
  | error e => exact absurd hends not_unfit
  | ok o =>
    obtain ⟨replies, rest, -, hcloses⟩ := hbrackets
    obtain ⟨asked, hrequests, hsaid⟩ := hcloses.said
    -- two turns are over after three messages, so the middle one is all there is in between
    have hlength := hsaid.length_eq
    have hturns := hcloses.turns
    rw [List.length_cons, List.length_append, List.length_singleton] at hlength
    rw [hends.1] at hturns
    obtain ⟨x, rfl⟩ := List.length_eq_one_iff.mp (show asked.length = 1 by omega)
    refine ⟨x, o, seat, rfl, ?_, hsaid, ?_, ?_⟩
    · exact fun hx => hrequests (List.mem_singleton.mpr hx.symm)
    · rw [hends.2.2]
      decide +kernel
    · rw [hends.2.1]
      decide

end House

end DeliTalk.Customer
