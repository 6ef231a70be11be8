import DeliTalk.Proofs.Smooth
import DeliTalk.Proofs.Service

/-!
# Both sides of a negotiation agree and end together

Whoever the two machines are and whatever their sources draw: a negotiation ends on both sides, they
have the same finished sandwich, and the records alternate up to the judgement. All it takes is one
sound language, time to wait, frames that are large enough, and counters that have logarithms. A
customer with a counter below minus one does not get over its first turn.

* `Course.free`: the course any two machines keep to.
* `Negotiation.settle_agrees`: any negotiation.
* `Negotiation.settle_of_not_counted`: a counter below minus one.
-/

namespace DeliTalk

open Act

/-! ## 1. The free course -/

/-- A scene on which both sides can go on. -/
def Scene.Going (s : Scene) : Prop := s.customer.Ready ∧ Order.Serves s.sandwich s.server

theorem Scene.Going.rests {s : Scene} (h : s.Going) :
    Table.Rests (fun t => Scene.Going { s with customer := t }) s.customer :=
  ⟨h.1.mind.chance, fun _ hc => ⟨h.1.withChance hc, h.2⟩⟩

theorem Scene.Going.parts {s : Scene} (h : s.Going) :
    Table.Rests (fun t => Scene.Going { s with server := t }) s.server :=
  ⟨h.2.2.chance, fun _ hc => ⟨h.1, h.2.1, h.2.2.counted, hc⟩⟩

theorem Mind.Ready.later {m m' : Mind ℝ} (h : m.Ready) (hlater : m.Later m') : m'.Ready := by
  obtain ⟨c, hc, rfl⟩ := hlater
  exact ⟨h.counted, hc.proper h.chance⟩

theorem Mind.Later.personality {m m' : Mind ℝ} (h : m.Later m') :
    m'.personality = m.personality := by
  obtain ⟨c, -, rfl⟩ := h
  rfl

namespace Course

/-- The course of any two machines: both sides can go on, and no request is a goodbye. -/
def free (a : Agent ℝ) : Course where
  before _ s := s.Going
  asked k x s := s.Going ∧ ∀ y ∈ x, (k : Int) < a.config.maxTurns ∧ y ≠ .finish ∧
    ∃ ts, Agent.speak a.lexicon (some y) = .ok ts ∧ ts ≠ []
  heard _ r s := s.Going ∧ ∀ reading ∈ r, reading.operation ≠ .finish
  served _ _ s := s.Going
  sends _ := True

variable {t : Taxonomy} {words : List (String × Entry)} (h : Lexicon.Sound t words)
  {a b : Agent ℝ} (hp : Partners t words a b)

include h hp

theorem free_asks {k : Nat} {s : Scene} (hs : s.Going) (hlt : (k : Int) < a.config.maxTurns) :
    Ends (Order.next s.sandwich) s.customer
      (Customer.Voices a fun x t => (free a).asked k x { s with customer := t }) never := by
  refine (Order.ends_next hs.1 s.sandwich).imp fun x t hx => ?_
  obtain ⟨hready, hrequests, hhistory⟩ := hx
  cases x with
  | none => exact ⟨⟨hready, hs.2⟩, by simp⟩
  | some x =>
    obtain ⟨ts, hts, -⟩ := Agent.speak_spec h (g := a.grammar) hp.customer.lexicon x
    refine ⟨ts, hts, fun hne => ⟨⟨hready, hs.2⟩, ?_⟩, fun _ => ?_⟩
    · intro y hy
      cases hy
      exact ⟨hlt, hrequests x rfl, ts, hts, hne⟩
    · -- what cannot be said is taken back for an affirmation, which can
      obtain ⟨rest, hretract⟩ := Order.exists_retract (hhistory (by simp))
      obtain ⟨w, -, hw, -⟩ := Agent.speak_usage h (g := a.grammar) hp.customer.lexicon
        (x := .affirm) (u := .affirmation) (by simp) rfl
      refine ⟨.affirm, { t.order with history := .affirm :: rest }, hretract, ⟨?_, hs.2⟩, ?_⟩
      · exact hready.withOrder hready.count
      · intro y hy
        cases hy
        exact ⟨hlt, by simp, [w], hw, by simp⟩

/-- **Any two machines keep to the free course.** -/
theorem free_kept : (free a).Kept a b where
  stops hs _ := ⟨hs, by simp⟩
  asks hs hlt := free_asks h hp hs hlt
  rests hs := ⟨hs.1.rests.1, fun c hc => ⟨hs.1.rests.2 c hc, hs.2⟩⟩
  parts hs := ⟨hs.1.parts.1, fun c hc => ⟨hs.1.parts.2 c hc, hs.2⟩⟩
  requests hs := hs.2 _ rfl
  hears {k x s ts} hs hts := by
    have hts' : Agent.speak b.lexicon (some x) = .ok ts := by
      rw [hp.lexicon]
      exact hts
    refine (hp.server.ends_understand h (hs.2 x rfl).2.1 hts' s.server.mind).imp fun r m hr => ?_
    have hready := hs.1.2.2.later hr.1
    exact ⟨hready.chance, fun c hc => ⟨⟨hs.1.1, hs.1.2.1, hready.counted, hc⟩, hr.2⟩⟩
  ignores hs := hs.1
  serves {k r s} hs := ⟨hs.2 r rfl,
    (Order.ends_serve hs.1.2 _ _ _).imp fun p t hserves => ⟨hs.1.1, hserves⟩⟩
  heeds {k y s ts} hs hts := by
    refine ⟨hs.2.1, ?_⟩
    refine (Agent.ends_understand h hp.customer (Phrase.text? ts) s.customer.mind).imp
      fun r m hr => ?_
    have hready := hs.1.mind.later hr.1
    have hfond : m.personality.Fond := by
      rw [hr.1.personality]
      exact hs.1.fond
    refine ⟨⟨hready, hfond, ?_⟩, hs.2⟩
    cases r with
    | none => exact hs.1.count
    | some reading =>
      show 1 ≤ (s.customer.order.hear reading.operation).maxCount
      rw [Order.maxCount_hear]
      exact hs.1.count
  plain hs := hs.1.2.1
  greets _ := ⟨True.intro, True.intro⟩
  tells _ _ := True.intro
  answers _ _ := True.intro
  finishes _ _ := True.intro

end Course

/-! ## 2. Any negotiation -/

namespace Negotiation

/-- Two machines whose sources are proper, and a customer without negative weights. -/
structure Sane (n : Negotiation ℝ) : Prop where
  customer : n.customer.chance.Proper
  server : n.server.chance.Proper
  fond : n.customer.personality.Fond

/-- A settlement on which both sides agree: they have the same finished sandwich, in time, and the
records of the session are complete. -/
structure Settlement.Agreed (a b : Agent ℝ) (base : List (TurnRecord ℝ)) (z : Settlement ℝ)
    (o : Outcome ℝ) : Prop where
  outcome : z.outcome = .ok o
  served : z.served = .ok o.result
  verdict : z.verdict = .ok o
  complete : o.result.complete = true
  turns : o.turns ≤ a.config.maxTurns + 1
  records : ∃ (turns : Nat) (w : Tagged) (rs : List (TurnRecord ℝ)), o.turns = turns ∧
    a.lexicon.wordForUsage .greeting = .ok w ∧ z.after.records = base ++ rs ∧
    Minutes a b (Phrase.render [w]) turns rs

section

variable {t : Taxonomy} {words : List (String × Entry)} {a server : Agent ℝ} {n : Negotiation ℝ}

theorem Settlement.Proper.agreed {z : Settlement ℝ} {base : List (TurnRecord ℝ)} {w : Tagged}
    {turns : Nat} {o : Order} {s : Sandwich} (hw : a.lexicon.wordForUsage .greeting = .ok w)
    (h : z.Proper a (joining server a) base (Phrase.render [w]) turns o s) :
    z.Agreed a server base (Customer.verdict a o turns { s with complete := true }) := by
  obtain ⟨rs, hrecords, hminutes⟩ := h.records
  refine ⟨h.outcome, h.served, ?_, rfl, h.bound, turns, w, rs, rfl, hw, hrecords, ?_⟩
  · unfold Settlement.verdict
    rw [h.outcome, h.served]
  · exact ⟨hminutes.tags, hminutes.greetings, hminutes.requests⟩

/-- What a customer dreams of is a sandwich. -/
theorem exists_dream (hdraws : n.customer.chance.Proper) : ∃ d c, (Order.dream a.lexicon.taxonomy
    n.customer.personality a.config.minFillings a.config.maxFillings).perform n.customer.chance =
      (.ok d, c) ∧ c.Proper := by
  obtain ⟨d, c, hperform, hc, -⟩ := (Order.yields_dream a.lexicon.taxonomy
    n.customer.personality a.config.minFillings a.config.maxFillings _ hdraws).exists
  exact ⟨d, c, hperform, hc⟩

/-- A server that has just opened can go on with an empty sandwich. -/
theorem serves_opened {m : Mind ℝ} (h : m.Ready) {b : Agent ℝ} :
    Order.Serves {} (Server.opened b m) := ⟨Sandwich.plain_empty, h.counted, h.chance⟩

/-- A customer whose counter has no logarithm does not get over the greeting. -/
theorem ends_greeted_faded {t : Table ℝ} (hflawed : ¬ t.mind.personality.Counted)
    (hhistory : t.order.history = []) (hturns : 0 < a.config.maxTurns) (m : Message) :
    Ends (Customer.receive a ⟨.greeting, 0, {}⟩ m) ⟨t, []⟩ (fun _ _ => False)
      (fun e _ => e = .noLogarithm) := by
  unfold Customer.receive
  simp only
  rw [ends_bind]
  exact (Customer.ends_ask_faded hflawed hhistory hturns _).mono (fun _ _ => False.elim)
    fun e seat' he => he.1

variable (h : Lexicon.Sound t words) (ha : a.Speaks t words) (hs : server.Speaks t words)
  (hturns : 0 ≤ a.config.maxTurns) (hpatience : Agent.answerTime < a.config.turnTimeout)
  (htime : 0 < server.config.turnTimeout) (hfits : (settle a server n).Fits a)

include h ha hs hturns hpatience htime hfits

/-- **Counters with logarithms** suffice for both sides to agree. -/
theorem settle_of_counted (hn : n.Sane) (hcustomer : n.customer.personality.Counted)
    (hserver : n.server.personality.Counted) :
    ∃ o, (settle a server n).Agreed a server n.records o := by
  have hp := partners_joining ha hs hturns hpatience htime
  obtain ⟨largest, hlargest⟩ := h.exists_largestNumber
  rw [← ha.lexicon] at hlargest
  obtain ⟨d, c, hdream, hc⟩ := exists_dream (a := a) hn.customer
  obtain ⟨w, hw, -⟩ := Agent.speak_usage h (g := a.grammar) ha.lexicon (x := .finish)
    (u := .greeting) (by simp) rfl
  have hgoing : Scene.Going ⟨⟨Customer.placed a d largest, { n.customer with chance := c }⟩,
      Server.opened (joining server a) n.server, {}⟩ := by
    refine ⟨⟨⟨hcustomer, hc⟩, hn.fond, ?_⟩, serves_opened ⟨hserver, hn.server⟩⟩
    exact le_max_left 1 (largest : Int)
  rcases settle_of_kept h hp (Course.free_kept h hp) hw hlargest hdream hgoing.parts with
    hspoiled | ⟨k, s, -, hproper⟩
  · exact absurd hspoiled (hfits.not_spoiled _)
  · exact ⟨_, hproper.agreed hw⟩

/-- **A customer with a counter below minus one** fails at its first turn. -/
theorem settle_of_not_counted (hdraws : n.customer.chance.Proper)
    (hserver : n.server.chance.Proper) (hcustomer : ¬ n.customer.personality.Counted)
    (hpositive : 0 < a.config.maxTurns) :
    (settle a server n).outcome = .error .noLogarithm := by
  have hp := partners_joining ha hs hturns hpatience htime
  obtain ⟨largest, hlargest⟩ := h.exists_largestNumber
  rw [← ha.lexicon] at hlargest
  obtain ⟨d, c, hdream, hc⟩ := exists_dream (a := a) hdraws
  obtain ⟨w, hw, -⟩ := Agent.speak_usage h (g := a.grammar) ha.lexicon (x := .finish)
    (u := .greeting) (by simp) rfl
  rcases opening_spec server (M := fun _ => True) hw hlargest hdream True.intro with
    ⟨e, serving, p, ⟨m, -, he⟩, hopening⟩ | ⟨frame, p, hopening, hframe, hshows⟩
  · exact absurd (outcome_settle_of_opening hopening) (hfits e m he).1
  · have hrests : Table.Rests (fun _ => True) (Server.opened (joining server a) n.server) :=
      ⟨hserver, fun _ _ => True.intro⟩
    have hgo := exchange_spec (a := a) ⟨⟨.greeting, 0, {}⟩, .await {}, p⟩
      (Q := fun _ _ _ _ => False) (G := (· = .noLogarithm)) hshows rfl (hp.hear hframe)
      (ends_parted (M := fun _ => True) h hp hrests hw True.intro) ?_
    · have hspoiled := hgo.resolve_right fun ⟨_, _, _, _, _, _, hfalse, _⟩ => hfalse
      have hsettled := spoiled_settled (b := joining server a)
        (spoiled_converse (a.config.maxTurns.toNat + 2) hspoiled)
      rw [← settle_of_opening hopening] at hsettled
      rcases hsettled with ⟨e, rfl, houtcome⟩ | ⟨e, ⟨m, -, he⟩, hserved⟩
      · exact houtcome
      · exact absurd hserved (hfits e m he).2
    · rintro v seat ⟨frame', rfl, -, hframe', hdid⟩
      refine ⟨frame', _, hdid.frames, hp.hearAnswer Sandwich.plain_empty hframe', ?_⟩
      exact ends_greeted_faded hcustomer rfl hpositive _

/-- **Both sides of a negotiation agree and end together** as long as all counters have logarithms.
A customer with a counter below minus one does not get over its first turn. -/
theorem settle_agrees (hn : n.Sane) :
    (n.customer.personality.Counted → n.server.personality.Counted →
      ∃ o, (settle a server n).Agreed a server n.records o) ∧
    (¬ n.customer.personality.Counted → 0 < a.config.maxTurns →
      (settle a server n).outcome = .error .noLogarithm) :=
  ⟨settle_of_counted h ha hs hturns hpatience htime hfits hn,
    settle_of_not_counted h ha hs hturns hpatience htime hfits hn.customer hn.server⟩

omit h ha hs hturns hpatience htime hfits in
/-- Two machines of the house agree. -/
theorem house_agrees : ∃ o, (settle House.machine House.machine House.visit).Agreed House.machine
    House.machine [] o :=
  (settle_agrees Lexicon.sound_house House.speaks House.speaks (by decide) House.patience
    House.time House.visit_fits ⟨House.proper, House.proper, by simp [House.visit, House.mind,
      Personality.Fond, Personality.standard]⟩).1 House.counted House.counted

end

end Negotiation

end DeliTalk
