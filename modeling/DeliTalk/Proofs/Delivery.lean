import DeliTalk.Proofs.Agreement
import DeliTalk.Proofs.Likeness

/-!
# A frictionless negotiation delivers what was dreamt of

Whatever either side hears or misses and however often the customer says thanks in between: a calm
customer with turns and patience enough gets from a server without spite the sandwich it dreamt of,
name by name, and judges it as such.

* `Outcome.Delivers`: an outcome that is what was dreamt of.
* `Negotiation.settle_delivers`: every frictionless negotiation.
-/

namespace DeliTalk

open Act

/-- An outcome that is what was dreamt of: the same names in order on a finished sandwich, judged to
be entirely alike, in time and without giving up. -/
structure Outcome.Delivers (d : Sandwich) (o : Outcome ℝ) : Prop where
  desired : o.desired = d
  names : o.result.names = d.names
  complete : o.result.complete = true
  score : o.score = 1
  content : o.gaveUp = false
  turns : o.turns ≤ 2 * (d.names.length : Int) + 1

/-- What is judged by what was dreamt of, and is that, is delivered. -/
theorem Customer.verdict_delivers {a : Agent ℝ} {o : Order} {turns : Nat} {d s : Sandwich}
    (hdesired : o.desired = d) (hnames : s.names = d.names) (hgaveUp : o.gaveUp = false)
    (hturns : turns ≤ 2 * d.names.length + 1) :
    (Customer.verdict a o turns { s with complete := true }).Delivers d := by
  have hscore : o.score { s with complete := true } = 1 := by
    unfold Order.score
    rw [hdesired, show ({ s with complete := true } : Sandwich).names = d.names from hnames]
    exact Likeness.likeness_self d.names
  refine ⟨hdesired, hnames, rfl, ?_, hgaveUp, ?_⟩
  · show (Scalar.ofRat (o.score { s with complete := true }) : ℝ) = 1
    rw [hscore]
    simp [Scalar.ofRat]
  · show (turns : Int) ≤ _
    omega

namespace Negotiation

variable {t : Taxonomy} {words : List (String × Entry)} {a server : Agent ℝ} {n : Negotiation ℝ}
  {d : Sandwich} (h : Lexicon.Sound t words) (ha : a.Speaks t words)
  (hs : server.Speaks t words) (hpatience : Agent.answerTime < a.config.turnTimeout)
  (htime : 0 < server.config.turnTimeout) (hfits : (settle a server n).Fits a)

include h ha hs hpatience htime hfits

/-- **A frictionless negotiation delivers** as long as all counters have logarithms. -/
theorem delivers_of_counted (hcounts : a.lexicon.CountsUp) (hn : n.Smooth t a server d)
    (hcustomer : n.customer.personality.Counted) (hserver : n.server.personality.Counted) :
    ∃ o, (settle a server n).Agreed a server n.records o ∧ o.Delivers d := by
  have hturns := hn.turns
  have hp := partners_joining ha hs (by omega) hpatience htime
  obtain ⟨most, hspoiled | ⟨turns, w, o, hw, hproper, hdesired, hgaveUp, hbound⟩⟩ :=
    settle_of_smooth h hp hcounts hn hcustomer hserver
  · exact absurd hspoiled (hfits.not_spoiled _)
  · exact ⟨_, hproper.agreed hw, Customer.verdict_delivers hdesired
      (h.tree.names_stack hn.leaves) hgaveUp hbound⟩

/-- **A frictionless negotiation delivers exactly the sandwich that was dreamt of**, as long as all
counters have logarithms. A customer with a counter below minus one does not get over its first
turn. -/
theorem settle_delivers (hcounts : a.lexicon.CountsUp) (hn : n.Smooth t a server d) :
    (n.customer.personality.Counted → n.server.personality.Counted →
      ∃ o, (settle a server n).Agreed a server n.records o ∧ o.Delivers d) ∧
    (¬ n.customer.personality.Counted →
      (settle a server n).outcome = .error .noLogarithm) := by
  have hturns := hn.turns
  obtain ⟨-, -, -, hpos⟩ := hn.dreamt
  refine ⟨delivers_of_counted h ha hs hpatience htime hfits hcounts hn, fun hcustomer => ?_⟩
  exact settle_of_not_counted h ha hs (by omega) hpatience htime hfits hn.draws hn.serverDraws
    hcustomer (by omega)

omit h ha hs hpatience htime hfits in
/-- A machine of the house gets its bread. -/
theorem house_delivers : ∃ o, (settle House.machine House.machine House.visit).Agreed House.machine
    House.machine [] o ∧ o.Delivers House.bread :=
  (settle_delivers Lexicon.sound_house House.speaks House.speaks House.patience House.time
    House.visit_fits House.countsUp House.visit_smooth).1 House.counted House.counted

end Negotiation

end DeliTalk
