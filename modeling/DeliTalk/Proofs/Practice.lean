import Mathlib.Analysis.SpecialFunctions.Log.Basic
import Mathlib.Data.List.DropRight
import DeliTalk.Proofs.Replies
import DeliTalk.Proofs.Storing

/-!
# Skills rise with use and fade without it

A turn of the server reports which constructs were used. What was used grows, and its counter of idle
turns starts again; everything else fades, and its counter goes on. Growing has a floor, so that what
it adds is above zero, and it stops at one; fading stops at zero. So whatever is served, the skills
stay probabilities, and every counter tells the turns since its skill was used.

* `Practice`: a skill and its counter, and what a turn makes of them (`Practice.turned`).
* `Personality.practice_upgrade`, `Personality.exists_fade_practice`, `Order.exists_serve_practice`:
  growing, fading and a whole turn over any scalars, skill by skill.
* `lt_grown`, `grown_one`, `faded_lt`: growing and fading over the real numbers.
* `Practice.Develops`, `Personality.InPractice`: what holds of every turn, and of a machine after some
  turns.
* `Personality.Practises.skills_follow_use`: both hold over every run of turns.
-/

namespace DeliTalk

open Act

/-! ## 1. A skill and its counter -/

namespace Language

theorem get_set {R : Type} (l : Language R) (s s' : Skill) (x : R) :
    (l.set s x).get s' = if s' = s then x else l.get s' := by
  cases s <;> cases s' <;> rfl

theorem mem_used {l : Language ℝ} {s : Skill} : s ∈ l.used ↔ 0 < l.get s := by
  unfold used
  rw [List.mem_filter, decide_eq_true_iff, Scalar.ofInt_real, Int.cast_zero]
  exact and_iff_right s.mem_all

/-- No skill is counted twice in a report. -/
theorem nodup_used {R : Type} [Scalar R] (l : Language R) : l.used.Nodup :=
  (show Skill.all.Nodup by decide).filter _

end Language

/-- A skill of a machine, and the counter of its idle turns if there is one yet. -/
structure Practice (R : Type) where
  skill : R
  counter : Option Int

namespace Practice

variable {R : Type}

/-- The idle turns counted. -/
def idle (x : Practice R) : Int := x.counter.getD 0

variable [Scalar R]

/-- A skill that was used: it grows, and its counter starts again. -/
def exercised (delta : R) (x : Practice R) : Practice R := ⟨grown x.skill delta, some 0⟩

/-- A skill that was not used: its counter goes on, and it fades by what is counted then. -/
def rested (x : Practice R) : Practice R := ⟨faded x.skill (x.idle + 1), some (x.idle + 1)⟩

/-- What a turn makes of a skill. -/
def turned (report : Language R) (s : Skill) (x : Practice R) : Practice R :=
  if s ∈ report.used then x.exercised (report.get s) else x.rested

end Practice

namespace Personality

section

variable {R : Type}

/-- A skill of a machine, and its counter. -/
def practice (p : Personality R) (s : Skill) : Practice R :=
  ⟨p.language.get s, Register.find? s.name p.idleTurns⟩

theorem idle_practice (p : Personality R) (s : Skill) : (p.practice s).idle = p.idle s := rfl

/-- What changes a skill and its counter changes no other. -/
theorem practice_practised (p : Personality R) (s s' : Skill) (x : R) (n : Int) :
    (p.practised (p.language.set s x) (Register.put s.name n p.idleTurns)).practice s' =
      if s' = s then ⟨x, some n⟩ else p.practice s' := by
  unfold practice practised
  simp only [Language.get_set]
  by_cases h : s' = s
  · rw [if_pos h, if_pos h, h, Register.find?_put_self]
  · rw [if_neg h, if_neg h, Register.find?_put_of_ne n fun hname => h (Skill.name_injective hname)]

end

variable {R : Type} [Scalar R] {p q : Personality R}

/-- Whether a skill can fade is up to its own counter. -/
theorem fades_congr {s : Skill} (h : p.practice s = q.practice s) : p.Fades s ↔ q.Fades s := by
  have hidle : p.idle s = q.idle s := congrArg Practice.idle h
  unfold Fades
  rw [idleFor_eq, idleFor_eq, hidle]

/-! ## 2. Growing and fading, skill by skill -/

/-- The induction behind `practice_upgrade`: a skill that grows is not among those still to grow. -/
theorem practice_foldl_exercise (report : Language R) (s : Skill) :
    ∀ (skills : List Skill) (p : Personality R), skills.Nodup →
      (skills.foldl (exercise report) p).practice s =
        if s ∈ skills then (p.practice s).exercised (report.get s) else p.practice s
  | [], p, _ => (if_neg List.not_mem_nil).symm
  | s' :: rest, p, hnodup => by
    obtain ⟨hfresh, hrest⟩ := List.nodup_cons.mp hnodup
    have hone : (exercise report p s').practice s =
        if s = s' then (p.practice s').exercised (report.get s') else p.practice s :=
      p.practice_practised s' s _ 0
    rw [List.foldl_cons, practice_foldl_exercise report s rest _ hrest, hone]
    by_cases hs : s = s'
    · rw [if_neg (hs ▸ hfresh), if_pos hs, if_pos (hs ▸ List.mem_cons_self), hs]
    · rw [if_neg hs]
      simp only [List.mem_cons, hs, false_or]

/-- **Growing** changes the skills of a report, each of them once. -/
theorem practice_upgrade (p : Personality R) (report : Language R) (s : Skill) :
    (p.upgrade report).practice s =
      if s ∈ report.used then (p.practice s).exercised (report.get s) else p.practice s :=
  practice_foldl_exercise report s report.used p report.nodup_used

/-- **One skill fades** where its counter has a logarithm, and no other does. -/
theorem exists_fadeOne {s : Skill} (h : p.Fades s) : ∃ q, fadeOne p s = (.ok (), q) ∧
    ∀ s', q.practice s' = if s' = s then (p.practice s).rested else p.practice s' := by
  refine ⟨p.practised (p.language.set s (faded (p.language.get s) (p.idleFor s)))
    (Register.put s.name (p.idleFor s) p.idleTurns), ?_, fun s' => p.practice_practised s s' _ _⟩
  unfold fadeOne
  simp only [h.1, Bool.not_true, Bool.false_eq_true, if_false]
  rw [if_neg (not_le.mpr h.2)]
  rfl

/-- The induction behind `exists_fade_practice`: what one skill fades by is no other's. -/
theorem exists_fadeAll (used : List Skill) : ∀ (skills : List Skill) (p : Personality R),
    skills.Nodup → (∀ s ∈ skills, s ∉ used → p.Fades s) →
      ∃ q, fadeAll used skills p = (.ok (), q) ∧ ∀ s, q.practice s =
        if s ∈ skills ∧ s ∉ used then (p.practice s).rested else p.practice s
  | [], p, _, _ => ⟨p, rfl, fun s => by simp⟩
  | s :: rest, p, hnodup, hfades => by
    obtain ⟨hfresh, hrest⟩ := List.nodup_cons.mp hnodup
    obtain ⟨hs, hothers⟩ := List.forall_mem_cons.mp hfades
    unfold fadeAll
    by_cases hused : s ∈ used
    · rw [if_pos hused]
      obtain ⟨q, hq, hpractice⟩ := exists_fadeAll used rest p hrest hothers
      refine ⟨q, hq, fun s' => ?_⟩
      rw [hpractice]
      by_cases heq : s' = s
      · simp [heq, hused]
      · simp [heq]
    · rw [if_neg hused]
      obtain ⟨p₁, hone, hpractice₁⟩ := exists_fadeOne (hs hused)
      -- the skills that are left have the counters they had, and so can still fade
      have hother : ∀ s' ≠ s, p₁.practice s' = p.practice s' := fun s' heq => by
        rw [hpractice₁, if_neg heq]
      obtain ⟨q, hq, hpractice⟩ := exists_fadeAll used rest p₁ hrest fun s' hs' hunused =>
        (fades_congr (hother s' fun heq => hfresh (heq ▸ hs'))).mpr (hothers s' hs' hunused)
      rw [hone]
      refine ⟨q, hq, fun s' => ?_⟩
      rw [hpractice]
      by_cases heq : s' = s
      · simp [heq, hfresh, hused, hpractice₁]
      · simp [heq, hother s' heq]

/-- **Fading** changes the skills that were not used, each of them once. -/
theorem exists_fade_practice {used : List Skill} (h : ∀ s ∉ used, p.Fades s) :
    ∃ q, fade used p = (.ok (), q) ∧ ∀ s, q.practice s =
      if s ∈ used then p.practice s else (p.practice s).rested := by
  obtain ⟨q, hq, hpractice⟩ := exists_fadeAll used Skill.all p (by decide) fun s _ => h s
  refine ⟨q, hq, fun s => ?_⟩
  rw [hpractice]
  by_cases hs : s ∈ used <;> simp [hs, s.mem_all]

end Personality

/-- **A turn of the server**, whatever is served: the skills that were used grow and start again, all
others fade. This takes counters that have logarithms where a skill was not used. -/
theorem Order.exists_serve_practice {R : Type} [Scalar R] (heard : Operation)
    (report : Language R) (lex : List LexedWord) (sandwich : Sandwich) {t : Table R}
    (h : ∀ s ∉ report.used, t.mind.personality.Fades s) :
    ∃ a t', (serve heard report lex sandwich).perform t = (.ok a, t') ∧
      ∀ s, t'.mind.personality.practice s = (t.mind.personality.practice s).turned report s := by
  -- the edits leave skills and counters alone
  have hgrown : ∀ s, ((t.edited heard sandwich).2.upgrade report).practice s =
      if s ∈ report.used then (t.mind.personality.practice s).exercised (report.get s)
      else t.mind.personality.practice s := fun s => by
    rw [Personality.practice_upgrade, Table.edited_congr (Personality.practice · s) (fun _ => rfl)
      (fun _ _ => rfl) t heard sandwich]
  obtain ⟨q, hfade, hfaded⟩ := Personality.exists_fade_practice fun s hs =>
    (Personality.fades_congr ((hgrown s).trans (if_neg hs))).mpr (h s hs)
  have hserve := perform_serve heard report lex sandwich t
  rw [hfade] at hserve
  refine ⟨_, _, hserve, fun s => ?_⟩
  show q.practice s = _
  rw [hfaded, hgrown]
  unfold Practice.turned
  by_cases hs : s ∈ report.used
  · rw [if_pos hs, if_pos hs, if_pos hs]
  · rw [if_neg hs, if_neg hs, if_neg hs]

/-! ## 3. Growing and fading over the real numbers -/

theorem grown_real (x delta : ℝ) : grown x delta =
    min 1 (max x 0.05 + Real.log (max x 0.05 * 100) / 100 * delta) := by
  unfold grown skillFloor
  rw [Scalar.least_real, Scalar.greatest_real, Scalar.ln_real]
  norm_num

theorem faded_real (x : ℝ) (n : Int) :
    faded x n = max 0 (x - Real.log (1 + n) / 1000) := by
  unfold faded fadeDivisor
  rw [Scalar.greatest_real, Scalar.ln_real, Scalar.ofInt_real]
  norm_num

/-- **What growing adds is above zero**, thanks to the floor. -/
theorem lt_growth (x : ℝ) {delta : ℝ} (h : 0 < delta) :
    x < max x 0.05 + Real.log (max x 0.05 * 100) / 100 * delta := by
  have hfloor : (0.05 : ℝ) ≤ max x 0.05 := le_max_right x _
  have hlog : 0 < Real.log (max x 0.05 * 100) := Real.log_pos (by linarith)
  have hgain : 0 < Real.log (max x 0.05 * 100) / 100 * delta := by positivity
  linarith [le_max_left x 0.05]

theorem lt_grown {x delta : ℝ} (hx : x < 1) (h : 0 < delta) : x < grown x delta := by
  rw [grown_real]
  exact lt_min hx (lt_growth x h)

theorem grown_one {delta : ℝ} (h : 0 < delta) : grown 1 delta = 1 := by
  rw [grown_real]
  exact min_eq_left (le_of_lt (lt_growth 1 h))

theorem isShare_grown {x delta : ℝ} (hx : IsShare x) (h : 0 < delta) : IsShare (grown x delta) := by
  rw [grown_real]
  exact ⟨le_min zero_le_one (hx.1.trans (le_of_lt (lt_growth x h))), min_le_left _ _⟩

/-- A counter of one or more has a logarithm above zero, once one is added. -/
theorem fading_pos {n : Int} (hn : 1 ≤ n) : 0 < Real.log (1 + n) / 1000 := by
  have hcast : (1 : ℝ) ≤ n := by exact_mod_cast hn
  exact div_pos (Real.log_pos (by linarith)) (by norm_num)

theorem faded_lt {x : ℝ} (hx : 0 < x) {n : Int} (hn : 1 ≤ n) : faded x n < x := by
  rw [faded_real]
  exact max_lt hx (sub_lt_self x (fading_pos hn))

theorem faded_le {x : ℝ} (hx : 0 ≤ x) {n : Int} (hn : 1 ≤ n) : faded x n ≤ x := by
  rw [faded_real]
  exact max_le hx (sub_le_self x (le_of_lt (fading_pos hn)))

theorem isShare_faded {x : ℝ} (hx : IsShare x) {n : Int} (hn : 1 ≤ n) : IsShare (faded x n) := by
  refine ⟨?_, (faded_le hx.1 hn).trans hx.2⟩
  rw [faded_real]
  exact le_max_left _ _

/-! ## 4. One turn -/

namespace Practice

/-- **What one turn does to a skill.** If it is used, it grows unless it is full, and the counter is
back at zero. If not, it does not grow, it is less than before unless there was nothing left of it,
and the counter is one higher. -/
structure Develops (isUsed : Prop) (x y : Practice ℝ) : Prop where
  rises (h : isUsed) : x.skill < 1 → x.skill < y.skill
  full (h : isUsed) : x.skill = 1 → y.skill = 1
  restarts (h : isUsed) : y.counter = some 0
  fades (h : ¬ isUsed) : y.skill ≤ x.skill ∧ (0 < x.skill → y.skill < x.skill)
  counts (h : ¬ isUsed) : y.counter = some (x.idle + 1)

variable {x : Practice ℝ}

theorem isShare_turned (hx : IsShare x.skill) (hidle : 0 ≤ x.idle) (report : Language ℝ)
    (s : Skill) : IsShare (x.turned report s).skill := by
  unfold turned
  split
  · rename_i hs
    exact isShare_grown hx (Language.mem_used.mp hs)
  · exact isShare_faded hx (by omega)

theorem develops_turned (hx : IsShare x.skill) (hidle : 0 ≤ x.idle) (report : Language ℝ)
    (s : Skill) : x.Develops (s ∈ report.used) (x.turned report s) := by
  unfold turned
  by_cases hs : s ∈ report.used
  · rw [if_pos hs]
    have hdelta := Language.mem_used.mp hs
    refine ⟨fun _ hlow => lt_grown hlow hdelta, fun _ hfull => ?_, fun _ => rfl,
      fun hnot => absurd hs hnot, fun hnot => absurd hs hnot⟩
    show grown x.skill _ = 1
    rw [hfull]
    exact grown_one hdelta
  · rw [if_neg hs]
    have hpos : 1 ≤ x.idle + 1 := by omega
    exact ⟨fun h => absurd h hs, fun h => absurd h hs, fun h => absurd h hs,
      fun _ => ⟨faded_le hx.1 hpos, fun hsome => faded_lt hsome hpos⟩, fun _ => rfl⟩

end Practice

/-! ## 5. Any number of turns -/

/-- The turns since the last one that used a skill, or since the first one. -/
def turnsSince {R : Type} [Scalar R] (s : Skill) (reports : List (Language R)) : Nat :=
  (reports.rtakeWhile fun report => decide (s ∉ report.used)).length

theorem turnsSince_concat {R : Type} [Scalar R] (s : Skill) (reports : List (Language R))
    (report : Language R) : turnsSince s (reports ++ [report]) =
      if s ∈ report.used then 0 else turnsSince s reports + 1 := by
  unfold turnsSince
  rw [List.rtakeWhile_concat]
  by_cases hs : s ∈ report.used <;> simp [hs]

namespace Personality

/-- Where some served turns lead from a personality, with the report of each. A turn may be about any
order, any sandwich and any source of chance, and whatever happens between two turns leaves the skills
and their counters alone. -/
inductive Practises {R : Type} [Scalar R] (p : Personality R) :
    List (Language R) → Personality R → Prop where
  | start : Practises p [] p
  | served {reports : List (Language R)} {q : Personality R} {t t' : Table R} {heard : Operation}
      {report : Language R} {lex : List LexedWord} {sandwich : Sandwich}
      {r : Except Fault (Sandwich × Option Operation)} (h : Practises p reports q)
      (hsame : t.mind.personality.practice = q.practice)
      (hserve : (Order.serve heard report lex sandwich).perform t = (r, t')) :
      Practises p (reports ++ [report]) t'.mind.personality

/-- **A machine after some turns**, its counters having been empty: its skills are probabilities, and
what is counted for a skill is the turns since it was used. -/
structure InPractice (reports : List (Language ℝ)) (p : Personality ℝ) : Prop where
  share (s : Skill) : IsShare (p.practice s).skill
  idle (s : Skill) : (p.practice s).idle = turnsSince s reports
  counted (h : reports ≠ []) (s : Skill) : (p.practice s).counter = some (turnsSince s reports : Int)

variable {p q : Personality ℝ} {reports : List (Language ℝ)}

/-- A machine that never served. -/
theorem inPractice_start (hskills : ∀ s, IsShare (p.language.get s)) (hfresh : p.idleTurns = []) :
    p.InPractice [] := by
  refine ⟨hskills, fun s => ?_, fun h => absurd rfl h⟩
  rw [idle_practice]
  unfold Personality.idle
  rw [hfresh]
  rfl

theorem InPractice.idle_nonneg (h : p.InPractice reports) (s : Skill) : 0 ≤ (p.practice s).idle := by
  rw [h.idle s]
  exact Int.natCast_nonneg _

/-- **One more turn** of a machine in practice, whatever is served: there is an answer or none, but no
fault. -/
theorem InPractice.serve (h : p.InPractice reports) {t : Table ℝ}
    (hsame : t.mind.personality.practice = p.practice) (heard : Operation) (report : Language ℝ)
    (lex : List LexedWord) (sandwich : Sandwich) :
    ∃ a t', (Order.serve heard report lex sandwich).perform t = (.ok a, t') ∧
      ∀ s, t'.mind.personality.practice s = (p.practice s).turned report s := by
  have hfades : ∀ s ∉ report.used, t.mind.personality.Fades s := fun s _ => by
    rw [fades_congr (congrFun hsame s), fades_real, ← idle_practice]
    have hidle := h.idle_nonneg s
    omega
  rw [← hsame]
  exact Order.exists_serve_practice heard report lex sandwich hfades

/-- **What one turn keeps.** -/
theorem InPractice.turned (h : p.InPractice reports) {report : Language ℝ}
    (hq : ∀ s, q.practice s = (p.practice s).turned report s) :
    q.InPractice (reports ++ [report]) := by
  have hcounter : ∀ s, (q.practice s).counter =
      some (turnsSince s (reports ++ [report]) : Int) := fun s => by
    have hdevelops := Practice.develops_turned (h.share s) (h.idle_nonneg s) report s
    rw [hq, turnsSince_concat]
    by_cases hs : s ∈ report.used
    · rw [if_pos hs, hdevelops.restarts hs]
      rfl
    · rw [if_neg hs, hdevelops.counts hs, h.idle s]
      rfl
  refine ⟨fun s => ?_, fun s => ?_, fun _ => hcounter⟩
  · rw [hq]
    exact Practice.isShare_turned (h.share s) (h.idle_nonneg s) report s
  · unfold Practice.idle
    rw [hcounter]
    rfl

/-- **What any turns keep.** -/
theorem Practises.inPractice (hskills : ∀ s, IsShare (p.language.get s))
    (hfresh : p.idleTurns = []) (h : p.Practises reports q) : q.InPractice reports := by
  induction h with
  | start => exact inPractice_start hskills hfresh
  | served _ hsame hserve ih =>
    obtain ⟨a, t₁, hok, hturned⟩ := ih.serve hsame _ _ _ _
    -- a run may have faults in it, but this turn is one of a machine in practice
    rw [hserve] at hok
    cases hok
    exact ih.turned hturned

/-- **Skills rise with use, fade without it and stay probabilities.** Whatever a machine served since
its counters were empty, its skills are probabilities and its counters tell the turns since each of
them was used; and whatever it serves next, it serves without a fault, the skills that are used grow
unless they are full, and the others fade. -/
theorem Practises.skills_follow_use (hskills : ∀ s, IsShare (p.language.get s))
    (hfresh : p.idleTurns = []) (h : p.Practises reports q) :
    q.InPractice reports ∧ ∀ t : Table ℝ, t.mind.personality.practice = q.practice →
      ∀ heard report lex sandwich, ∃ a t',
        (Order.serve heard report lex sandwich).perform t = (.ok a, t') ∧
        p.Practises (reports ++ [report]) t'.mind.personality ∧
        ∀ s, (q.practice s).Develops (s ∈ report.used) (t'.mind.personality.practice s) := by
  have hq := h.inPractice hskills hfresh
  refine ⟨hq, fun t hsame heard report lex sandwich => ?_⟩
  obtain ⟨a, t', hserve, hturned⟩ := hq.serve hsame heard report lex sandwich
  refine ⟨a, t', hserve, h.served hsame hserve, fun s => ?_⟩
  rw [hturned]
  exact Practice.develops_turned (hq.share s) (hq.idle_nonneg s) report s

namespace House

open Order.House

/-- A server without spite after a request with a number in it, and another one without. -/
noncomputable def drilled : Table ℝ :=
  ((Order.serve .affirm .unused [] {}).perform
    ((Order.serve (.repeated 2 (.add ham .top)) (.once .numbers) [] {}).perform bare).2).2

/-- The number was used a turn ago and an adverb never; then an adverb is used. -/
theorem skills_follow_use_drilled :
    (∀ s, IsShare (bare.mind.personality.language.get s)) ∧ bare.mind.personality.idleTurns = [] ∧
    bare.mind.personality.Practises [.once .numbers, .unused] drilled.mind.personality ∧
    (drilled.mind.personality.practice .numbers).counter = some 1 ∧
    (drilled.mind.personality.practice .adverbs).counter = some 2 ∧
    Skill.adverbs ∈ (Language.once .adverbs : Language ℝ).used ∧
    ∃ a t', (Order.serve .affirm (.once .adverbs) [] {}).perform drilled = (.ok a, t') ∧
      ∀ s, (drilled.mind.personality.practice s).Develops
        (s ∈ (Language.once .adverbs : Language ℝ).used) (t'.mind.personality.practice s) := by
  have hskills : ∀ s, IsShare (bare.mind.personality.language.get s) := by
    intro s
    cases s <;> norm_num [IsShare, bare, Personality.standard, Language.uniform, Language.get]
  have hdrilled : bare.mind.personality.Practises ([] ++ [.once .numbers] ++ [.unused])
      drilled.mind.personality :=
    .served (.served .start rfl Prod.mk.eta.symm) rfl Prod.mk.eta.symm
  obtain ⟨hpractice, hnext⟩ := hdrilled.skills_follow_use hskills rfl
  have honce : ∀ s k : Skill, s ∈ (Language.once k : Language ℝ).used ↔ s = k := fun s k => by
    rw [Language.mem_used, Language.once, Language.get_set, Language.get_unused]
    split <;> simp [*]
  have hunused : ∀ s : Skill, s ∉ (Language.unused : Language ℝ).used := fun s => by
    rw [Language.mem_used, Language.get_unused]
    exact lt_irrefl 0
  have hcounter := hpractice.counted (by simp)
  simp only [turnsSince_concat, honce, hunused] at hcounter
  obtain ⟨a, t', hserve, -, hdevelops⟩ := hnext drilled rfl .affirm (.once .adverbs) [] {}
  exact ⟨hskills, rfl, hdrilled, hcounter .numbers, hcounter .adverbs,
    (honce .adverbs .adverbs).mpr rfl, a, t', hserve, hdevelops⟩

end House

end Personality

end DeliTalk
