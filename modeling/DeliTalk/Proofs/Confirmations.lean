import DeliTalk.Proofs.Escapes
import DeliTalk.Proofs.Footprint
import DeliTalk.Proofs.Incidents

/-!
# What a yes confirms

A machine that draws the senses of words keeps the reading it served last, and takes a yes to mean
that it read it right: each of its words weighs twice as much in the sense it was read with. So the
clouds tell what was confirmed, and how often. Nothing that is only heard changes any of them, whether
it was understood or not.

* `Personality.confirmedCloud`: the cloud of a word, as some words were confirmed.
* `Personality.Recalls`: a machine whose clouds tell what was confirmed.
* `Personality.ConfirmsEach`: what a yes does to it.
* `Order.yeses`, `Table.yeses`: how often a yes is done.
* `Order.recalls_reapply`, `Table.recalls_edited`: operations, and turns, confirm as often.
* `Table.Learns`: machines that hear texts and serve what they understood.
* `Table.clouds_tell`: what their clouds tell.
-/

namespace DeliTalk

open Act

/-! ## 1. Senses that were confirmed -/

namespace Personality

/-- The cloud of a word after some words were confirmed as they were read: every entry, with a weight
that doubles, from one, each time the word was confirmed with it, up to a million. -/
noncomputable def confirmedCloud (entries : List Entry) (word : String) (words : List LexedWord) :
    List (Meaning ℝ) :=
  entries.map fun e => ⟨e, ((min (10 ^ 6) (2 ^ words.count ⟨word, some e⟩) : ℕ) : ℝ)⟩

variable {entries : List Entry} {word : String} {words : List LexedWord}

/-- Of a word that was not confirmed yet nothing weighs more than anything else. -/
theorem confirmedCloud_of_forall_ne (h : ∀ w ∈ words, w.word ≠ word) :
    confirmedCloud entries word words = evenCloud entries := by
  refine List.map_congr_left fun e _ => ?_
  have hcount : words.count ⟨word, some e⟩ = 0 :=
    List.count_eq_zero.mpr fun hmem => h _ hmem rfl
  rw [hcount]
  congr 1
  norm_num

/-- A word that is confirmed changes no other word's cloud. -/
theorem confirmedCloud_append_of_ne {w : LexedWord} (h : w.word ≠ word) :
    confirmedCloud entries word (words ++ [w]) = confirmedCloud entries word words := by
  refine List.map_congr_left fun e _ => ?_
  have hcount : [w].count ⟨word, some e⟩ = 0 :=
    List.count_eq_zero.mpr fun hmem => h (congrArg LexedWord.word (List.mem_singleton.mp hmem)).symm
  rw [List.count_append, hcount, Nat.add_zero]

/-- A weight after one more confirmation. -/
def confirmedWeight {R : Type} [Scalar R] (weight : R) : R :=
  Scalar.least maxWeight (weight * (1.0 + confirmationRate))

/-- A weight doubles once more, up to a million. -/
theorem confirmedWeight_double (k : ℕ) : confirmedWeight ((min (10 ^ 6) (2 ^ k) : ℕ) : ℝ) =
    ((min (10 ^ 6) (2 ^ (k + 1)) : ℕ) : ℝ) := by
  have hdouble : ((min (10 ^ 6) (2 ^ k) : ℕ) : ℝ) * (1.0 + confirmationRate) =
      ((2 * min (10 ^ 6) (2 ^ k) : ℕ) : ℝ) := by
    unfold confirmationRate
    push_cast
    norm_num
    ring
  have hmost : (maxWeight : ℝ) = ((10 ^ 6 : ℕ) : ℝ) := by
    unfold maxWeight
    norm_num
  have hmin : min (10 ^ 6) (2 ^ (k + 1)) = min (10 ^ 6) (2 * min (10 ^ 6) (2 ^ k)) := by
    rw [pow_succ]
    omega
  unfold confirmedWeight
  rw [hdouble, hmost, hmin]
  unfold Scalar.least
  split
  · rename_i h
    rw [min_eq_right (le_of_lt (Nat.cast_lt.mp h))]
  · rename_i h
    rw [min_eq_left (not_lt.mp fun hlt => h (Nat.cast_lt.mpr hlt))]

/-- **A sense is confirmed** as often as its entry is there. -/
theorem strengthen_confirmed (e : Entry) : ∀ entries : List Entry,
    strengthen confirmationRate e (confirmedCloud entries word words) =
      (confirmedCloud entries word (words ++ [⟨word, some e⟩]), entries.count e)
  | [] => rfl
  | x :: rest => by
    have ih := strengthen_confirmed e rest
    unfold confirmedCloud at ih ⊢
    rw [List.map_cons, List.map_cons, List.count_append, List.count_cons (a := e)]
    unfold strengthen
    by_cases hx : x = e
    · have hcount : [(⟨word, some e⟩ : LexedWord)].count ⟨word, some x⟩ = 1 := by simp [hx]
      have hweight := confirmedWeight_double (words.count ⟨word, some x⟩)
      unfold confirmedWeight at hweight
      simp only [ih, if_pos hx, hweight, hcount, beq_iff_eq]
    · have hcount : [(⟨word, some e⟩ : LexedWord)].count ⟨word, some x⟩ = 0 := by
        simp [Ne.symm hx]
      simp only [ih, if_neg hx, hcount, beq_iff_eq, Nat.add_zero]

/-! ## 2. Machines that confirm -/

/-- Whether a word was heard. -/
def Heard {R : Type} (p : Personality R) (word : String) : Prop :=
  ∃ cloud, Register.find? word p.cloud = some cloud

/-- What was heard stays heard, whatever the weights become. -/
theorem Heard.reweighed {R : Type} {p q : Personality R} {reading : List LexedWord}
    (h : p.Heard word) (hq : Reweighed reading p.cloud q.cloud) : q.Heard word := by
  unfold Heard at h ⊢
  generalize p.cloud = c at h hq
  generalize q.cloud = c' at hq ⊢
  induction hq with
  | nil => exact h
  | @cons a b _ _ hab _ ih =>
    obtain ⟨key, old⟩ := a
    obtain ⟨key', new⟩ := b
    obtain ⟨hkey, -⟩ := hab
    simp only at hkey
    subst hkey
    unfold Register.find? at h ⊢
    by_cases hword : key' = word
    · exact ⟨new, if_pos hword⟩
    · simp only [if_neg hword] at h ⊢
      exact ih h

/-- A machine that recalls what it read last and what was confirmed: its clouds, one a word, hold every
entry, weighed by how often it was confirmed, and there is one for every word that was confirmed and
every word it read last, which it read with some entry. -/
structure Recalls (lex : Lexicon) (last words : List LexedWord) (p : Personality ℝ) : Prop where
  distinct : (Register.keys p.cloud).Nodup
  clouds : ∀ word cloud, Register.find? word p.cloud = some cloud →
    cloud = confirmedCloud lex.uniqueEntries word words
  confirmed : ∀ w ∈ words, p.Heard w.word
  lastLex : p.lastLex = last
  read : ∀ w ∈ last, ∃ e ∈ lex.uniqueEntries, w.entry = some e ∧ p.Heard w.word

/-- Whether a yes confirms each word of the last reading in one sense, and so as many senses as there
are words. -/
def ConfirmsEach (p : Personality ℝ) : Prop :=
  (p.reinforce confirmationRate p.lastLex).2 = p.lastLex.length ∧
    ∀ before w after, p.lastLex = before ++ w :: after →
      (reinforceWord confirmationRate (p.reinforce confirmationRate before).1 w).2 = 1

namespace Recalls

variable {lex : Lexicon} {last : List LexedWord} {p q : Personality ℝ}

/-- Nothing else there is of a machine matters. -/
theorem congr (h : p.Recalls lex last words) (hcloud : q.cloud = p.cloud)
    (hlast : q.lastLex = p.lastLex) : q.Recalls lex last words := by
  obtain ⟨hdistinct, hclouds, hconfirmed, hlastLex, hread⟩ := h
  unfold Heard at hconfirmed hread
  rw [← hcloud] at hdistinct hclouds hconfirmed hread
  exact ⟨hdistinct, hclouds, hconfirmed, hlast.trans hlastLex, hread⟩

/-- A machine that has heard nothing yet. -/
theorem fresh (hcloud : p.cloud = []) (hlast : p.lastLex = []) : p.Recalls lex [] [] := by
  refine ⟨hcloud ▸ List.nodup_nil, fun word cloud h => ?_, nofun, hlast, nofun⟩
  rw [hcloud] at h
  cases h

/-- A sense in a cloud is that of an entry. -/
theorem mem_of_knows (h : p.Recalls lex last words) {e : Entry} (hknows : p.Knows word e) :
    e ∈ lex.uniqueEntries := by
  obtain ⟨cloud, hcloud, he⟩ := hknows
  rw [h.clouds word cloud hcloud, confirmedCloud, List.map_map] at he
  obtain ⟨e', he', rfl⟩ := List.mem_map.mp he
  exact he'

/-- **One word is confirmed**, in one sense. -/
theorem reinforceWord (h : p.Recalls lex last words) {w : LexedWord} (hw : w ∈ last) :
    ∃ q, Personality.reinforceWord confirmationRate p w = (q, 1) ∧
      q.Recalls lex last (words ++ [w]) := by
  obtain ⟨e, he, hentry, cloud, hcloud⟩ := h.read w hw
  have hsense : lex.uniqueEntries.count e = 1 :=
    List.count_eq_one_of_mem lex.nodup_uniqueEntries he
  let senses := confirmedCloud lex.uniqueEntries w.word (words ++ [w])
  have hreinforced : Personality.reinforceWord confirmationRate p w =
      ({ p with cloud := Register.put w.word senses p.cloud }, 1) := by
    obtain ⟨word, entry⟩ := w
    simp only at hentry hcloud
    subst hentry
    unfold Personality.reinforceWord
    simp only [hcloud, h.clouds _ _ hcloud, strengthen_confirmed, hsense, senses]
  have hheard : ∀ {word}, p.Heard word →
      (Personality.reinforceWord confirmationRate p w).1.Heard word := fun hword =>
    hword.reweighed (reweighed_reinforceWord confirmationRate p hw)
  rw [hreinforced] at hheard ⊢
  refine ⟨_, rfl, ?_, fun word c hc => ?_, fun v hv => ?_, h.lastLex, fun v hv => ?_⟩
  · show (Register.keys (Register.put w.word senses p.cloud)).Nodup
    have hknown : w.word ∈ Register.keys p.cloud :=
      List.mem_map.mpr ⟨_, Register.mem_keys_of_find? hcloud, rfl⟩
    rw [Register.keys_put, if_pos hknown]
    exact h.distinct
  · by_cases hword : word = w.word
    · rw [hword, Register.find?_put_self, Option.some.injEq] at hc
      rw [← hc, hword]
    · rw [Register.find?_put_of_ne _ hword] at hc
      rw [confirmedCloud_append_of_ne (Ne.symm hword)]
      exact h.clouds word c hc
  · rcases List.mem_append.mp hv with hv | hv
    · exact hheard (h.confirmed v hv)
    · rw [List.mem_singleton.mp hv]
      exact hheard ⟨cloud, hcloud⟩
  · obtain ⟨e', he', hentry', hv'⟩ := h.read v hv
    exact ⟨e', he', hentry', hheard hv'⟩

/-- **Each word is confirmed** in one sense. -/
theorem reinforce : ∀ (reading : List LexedWord) {words : List LexedWord} {p : Personality ℝ},
    reading ⊆ last → p.Recalls lex last words →
    ∃ q, p.reinforce confirmationRate reading = (q, reading.length) ∧
      q.Recalls lex last (words ++ reading)
  | [], words, p, _, h => ⟨p, rfl, (List.append_nil words).symm ▸ h⟩
  | w :: rest, words, p, hsub, h => by
    obtain ⟨q, hq, hrecalls⟩ := h.reinforceWord (hsub List.mem_cons_self)
    obtain ⟨r, hr, hlater⟩ :=
      reinforce rest (fun v hv => hsub (List.mem_cons_of_mem w hv)) hrecalls
    refine ⟨r, ?_, List.append_cons words w rest ▸ hlater⟩
    rw [reinforce_cons, hq, hr, List.length_cons, Nat.add_comm]

/-- A yes confirms each word in one sense, wherever its turn comes. -/
theorem confirmsEach (h : p.Recalls lex last words) : p.ConfirmsEach := by
  unfold ConfirmsEach
  rw [h.lastLex]
  constructor
  · obtain ⟨q, hq, -⟩ := reinforce last (List.Subset.refl last) h
    rw [hq]
  · intro before w after hsplit
    obtain ⟨q, hq, hrecalls⟩ := reinforce before (by simp [hsplit]) h
    obtain ⟨r, hr, -⟩ := hrecalls.reinforceWord (w := w) (by simp [hsplit])
    rw [hq, hr]

/-- **Hearing some words** changes no weights. -/
theorem overhears (h : p.Recalls lex last words) {ws : List String}
    (hears : p.Overhears lex.uniqueEntries ws q) : q.Recalls lex last words := by
  have hheard : ∀ {word}, p.Heard word → q.Heard word := fun ⟨c, hc⟩ => ⟨c, hears.keeps hc⟩
  have hlast : q.lastLex = p.lastLex := by
    obtain ⟨_, -, -, rfl⟩ := hears
    rfl
  refine ⟨hears.nodup_keys h.distinct, fun word c hc => ?_,
    fun w hw => hheard (h.confirmed w hw), hlast.trans h.lastLex, fun w hw => ?_⟩
  · rcases hears.find? word with hsame | ⟨hnone, -, heven⟩
    · exact h.clouds word c (hsame ▸ hc)
    · -- a word that was not heard was not confirmed
      rw [heven, Option.some.injEq] at hc
      rw [← hc]
      refine (confirmedCloud_of_forall_ne fun w hw hword => ?_).symm
      obtain ⟨c', hc'⟩ := h.confirmed w hw
      rw [hword, hnone] at hc'
      cases hc'
  · obtain ⟨e, he, hentry, hw⟩ := h.read w hw
    exact ⟨e, he, hentry, hheard hw⟩

end Recalls

end Personality

/-! ## 3. How often a yes is done -/

/-- Whether an operation is a yes. -/
def Operation.isYes : Operation → Bool
  | affirm => true
  | _ => false

/-- No step of any operations is made of others. -/
theorem Operation.isSingle_of_mem_flatMap {xs : List Operation} {y : Operation}
    (hy : y ∈ xs.flatMap steps) : y.isSingle = true := by
  obtain ⟨x, -, hy⟩ := List.mem_flatMap.mp hy
  exact isSingle_of_mem_steps hy

/-- How often a yes is done by some operations, one after the other: once for each among their steps. -/
def Order.yeses (xs : List Operation) : Nat := (xs.flatMap Operation.steps).countP (·.isYes)

namespace Order

variable {lex : Lexicon} {last : List LexedWord}

/-- **One step** confirms what was read last if it is a yes. -/
theorem recalls_single {y : Operation} (hy : y.isSingle = true) {words : List LexedWord}
    {p : Personality ℝ} (s : Sandwich) (h : p.Recalls lex last words) :
    (y.apply (s, p)).2.Recalls lex last
      (words ++ (List.replicate ([y].countP (·.isYes)) last).flatten) := by
  cases hyes : y.isYes with
  | true =>
    have haffirm : y = .affirm := by cases y <;> first | rfl | cases hyes
    subst haffirm
    obtain ⟨q, hq, hrecalls⟩ :=
      Personality.Recalls.reinforce last (List.Subset.refl last) h
    show (p.reinforce Personality.confirmationRate p.lastLex).1.Recalls lex last
      (words ++ (last ++ []))
    rw [h.lastLex, hq, List.append_nil]
    exact hrecalls
  | false =>
    have hplain : .affirm ∉ [y] := fun hmem => by
      rw [← List.mem_singleton.mp hmem] at hyes
      cases hyes
    obtain ⟨-, htouched⟩ := Operation.touched_single hy s p
    rw [List.countP_singleton, hyes, if_neg Bool.false_ne_true, List.replicate_zero,
      List.flatten_nil, List.append_nil]
    exact h.congr (htouched.unaffirmed hplain) htouched.lastLex

/-- Some steps confirm it as often as there is a yes among them. -/
theorem recalls_steps : ∀ (l : List Operation), (∀ y ∈ l, y.isSingle = true) →
    ∀ {words : List LexedWord} (sp : Sandwich × Personality ℝ), sp.2.Recalls lex last words →
      (reapply l sp).2.Recalls lex last
        (words ++ (List.replicate (l.countP (·.isYes)) last).flatten)
  | [], _, words, sp, h => by
    rw [List.countP_nil, List.replicate_zero, List.flatten_nil, List.append_nil]
    exact h
  | y :: rest, hl, words, sp, h => by
    have hfirst := recalls_single (hl y List.mem_cons_self) sp.1 h
    have hrest := recalls_steps rest (fun z hz => hl z (List.mem_cons_of_mem y hz)) _ hfirst
    rw [← List.singleton_append, List.countP_append, List.replicate_add, List.flatten_append,
      ← List.append_assoc]
    exact hrest

/-- **Operations confirm** what was read last as often as they do a yes. -/
theorem recalls_reapply (xs : List Operation) {words : List LexedWord}
    (sp : Sandwich × Personality ℝ) (h : sp.2.Recalls lex last words) :
    (reapply xs sp).2.Recalls lex last (words ++ (List.replicate (yeses xs) last).flatten) := by
  rw [reapply_steps]
  exact recalls_steps _ (fun _ => Operation.isSingle_of_mem_flatMap) sp h

/-- Whatever operations do, what was heard stays heard. -/
theorem heard_reapply {R : Type} [Scalar R] (xs : List Operation) {word : String}
    (sp : Sandwich × Personality R) (h : sp.2.Heard word) : (reapply xs sp).2.Heard word := by
  rw [reapply_steps]
  exact h.reweighed
    (Operation.touched_reapply (fun _ => Operation.isSingle_of_mem_flatMap) sp.1 sp.2).2.senses

end Order

/-! ## 4. A turn -/

namespace Table

/-- How often a yes is done in a turn: by what is in force, and by what the server makes of the
instruction. -/
def yeses {R : Type} [Scalar R] (t : Table R) (heard : Operation) : Nat :=
  Order.yeses t.order.standing + Order.yeses [t.heeds heard]

/-- What was heard before a turn stays heard. -/
theorem heard_edited {R : Type} [Scalar R] (t : Table R) (heard : Operation) (s : Sandwich)
    {word : String} (h : t.mind.personality.Heard word) : (t.edited heard s).2.Heard word := by
  have hstanding := Order.heard_reapply t.order.standing (s, t.mind.personality.willing) h
  have hprimed : (t.primed s).2.Heard word := by
    unfold primed
    split <;> exact hstanding
  exact Order.heard_reapply [t.heeds heard] (t.primed s) hprimed

variable {lex : Lexicon} {last : List LexedWord} {words : List LexedWord} {t t' : Table ℝ}

/-- **A turn confirms** what was read last as often as it does a yes. -/
theorem recalls_edited (h : t.mind.personality.Recalls lex last words) (heard : Operation)
    (s : Sandwich) : (t.edited heard s).2.Recalls lex last
      (words ++ (List.replicate (t.yeses heard) last).flatten) := by
  have hwilling : t.mind.personality.willing.Recalls lex last words := h.congr rfl rfl
  have hstanding := Order.recalls_reapply t.order.standing (s, t.mind.personality.willing) hwilling
  have hprimed : (t.primed s).2.Recalls lex last
      (words ++ (List.replicate (Order.yeses t.order.standing) last).flatten) := by
    unfold primed
    split <;> exact hstanding.congr rfl rfl
  rw [yeses, List.replicate_add, List.flatten_append, ← List.append_assoc]
  exact Order.recalls_reapply [t.heeds heard] (t.primed s) hprimed

end Table

/-! ## 5. Machines that hear and serve -/

/-- What hearing a text comes to. -/
theorem Grammar.parse_overhears {lex : Lexicon} {budget : Int} {text : String} {m m' : Mind ℝ}
    {r : Except Fault (Reading ℝ)}
    (h : (Grammar.parse ⟨lex, budget⟩ true text).perform m = (r, m')) :
    m.personality.Overhears lex.uniqueEntries (Phrase.wordsOf text) m'.personality ∧
      ∀ reading, r = .ok reading → reading.lex.map (·.word) = Phrase.wordsOf text ∧
        ∀ w ∈ reading.lex, ∃ e, w.entry = some e ∧ m'.personality.Knows w.word e := by
  have hends := @Grammar.ends_parse_overhears ℝ _ ⟨lex, budget⟩ true text m
  unfold Ends at hends
  rw [h] at hends
  cases r with
  | error e => exact ⟨hends, nofun⟩
  | ok reading =>
    refine ⟨hends.1, ?_⟩
    rintro _ ⟨⟩
    exact hends.2 rfl

namespace Table

/-- Machines that hear texts, drawing senses for the words, and serve what they understood, with the
reading they served last and, for each yes that was done, the reading that was the last one then. A turn
may fail when its edits are done. Meanwhile anything may happen that leaves the clouds and the last
reading alone. -/
inductive Learns (lex : Lexicon) : Table ℝ → List LexedWord → List (List LexedWord) → Prop where
  | start {t : Table ℝ} (hcloud : t.mind.personality.cloud = [])
      (hlast : t.mind.personality.lastLex = []) : Learns lex t [] []
  | heard {t : Table ℝ} {last : List LexedWord} {yeses : List (List LexedWord)} {budget : Int}
      {text : String} {r : Except Fault (Reading ℝ)} {m : Mind ℝ} (h : Learns lex t last yeses)
      (hparse : (Grammar.parse ⟨lex, budget⟩ true text).perform t.mind = (r, m)) :
      Learns lex ⟨t.order, m⟩ last yeses
  | served {t t' : Table ℝ} {last : List LexedWord} {yeses : List (List LexedWord)}
      {budget : Int} {text : String} {r : Reading ℝ} {m : Mind ℝ} {s : Sandwich}
      {answer : Sandwich × Option Operation} (h : Learns lex t last yeses)
      (hparse : (Grammar.parse ⟨lex, budget⟩ true text).perform t.mind = (.ok r, m))
      (hserve : (Order.serve r.operation r.skills r.lex s).perform ⟨t.order, m⟩ =
        (.ok answer, t')) :
      Learns lex t' r.lex
        (yeses ++ List.replicate ((⟨t.order, m⟩ : Table ℝ).yeses r.operation) last)
  | faltered {t t' : Table ℝ} {last : List LexedWord} {yeses : List (List LexedWord)}
      {budget : Int} {text : String} {r : Reading ℝ} {m : Mind ℝ} {s : Sandwich} {e : Fault}
      (h : Learns lex t last yeses)
      (hparse : (Grammar.parse ⟨lex, budget⟩ true text).perform t.mind = (.ok r, m))
      (hserve : (Order.serve r.operation r.skills r.lex s).perform ⟨t.order, m⟩ = (.error e, t')) :
      Learns lex t' last
        (yeses ++ List.replicate ((⟨t.order, m⟩ : Table ℝ).yeses r.operation) last)
  | meanwhile {t t' : Table ℝ} {last : List LexedWord} {yeses : List (List LexedWord)}
      (h : Learns lex t last yeses)
      (hcloud : t'.mind.personality.cloud = t.mind.personality.cloud)
      (hlast : t'.mind.personality.lastLex = t.mind.personality.lastLex) : Learns lex t' last yeses

variable {lex : Lexicon} {last : List LexedWord} {yeses : List (List LexedWord)} {t : Table ℝ}

/-- **Whatever a machine heard and served**, it recalls what was confirmed. -/
theorem Learns.recalls (h : Learns lex t last yeses) :
    t.mind.personality.Recalls lex last yeses.flatten := by
  induction h with
  | start hcloud hlast => exact .fresh hcloud hlast
  | heard _ hparse ih => exact ih.overhears (Grammar.parse_overhears hparse).1
  | @served t t' last yeses _ _ r m s answer _ hparse hserve ih =>
    obtain ⟨hears, hreading⟩ := Grammar.parse_overhears hparse
    have hm : m.personality.Recalls lex last yeses.flatten := ih.overhears hears
    obtain ⟨s', reply⟩ := answer
    obtain ⟨-, -, l, k, hp⟩ := Order.serve_ok hserve
    have hedited := recalls_edited (t := ⟨t.order, m⟩) hm r.operation s
    rw [hp, List.flatten_append]
    refine ⟨hedited.distinct, hedited.clouds, hedited.confirmed, rfl, fun w hw => ?_⟩
    obtain ⟨e, hentry, hknows⟩ := (hreading r rfl).2 w hw
    refine ⟨e, hm.mem_of_knows hknows, hentry, ?_⟩
    obtain ⟨c, hc, -⟩ := hknows
    exact heard_edited ⟨t.order, m⟩ r.operation s ⟨c, hc⟩
  | @faltered t t' last yeses _ _ r m s e _ hparse hserve ih =>
    have hm : m.personality.Recalls lex last yeses.flatten :=
      ih.overhears (Grammar.parse_overhears hparse).1
    obtain ⟨l, k, ⟨hres, -⟩ | ⟨-, hp⟩⟩ := Order.serve_cases hserve
    · cases hres
    rw [hp, List.flatten_append]
    exact (recalls_edited (t := ⟨t.order, m⟩) hm r.operation s).congr rfl rfl
  | meanwhile _ hcloud hlast ih => exact ih.congr hcloud hlast

/-- **The clouds tell what was confirmed.** Whatever a machine heard and served, a word has one cloud at
most, which holds the entries there are, in their order, and each weighs two to the power of how often a yes was
done while the word stood in the last reading with that entry, up to a million. The last reading is
the one it served last, and whatever is done next, a yes after it confirms each word of that reading in
one sense. Whatever is heard next, understood or not, leaves nothing behind but even clouds for words
that had not been heard. -/
theorem clouds_tell (h : t.Learns lex last yeses) :
    (Register.keys t.mind.personality.cloud).Nodup ∧
    (∀ word cloud, (word, cloud) ∈ t.mind.personality.cloud →
      cloud = lex.uniqueEntries.map fun e =>
        ⟨e, ((min (10 ^ 6) (2 ^ yeses.flatten.count ⟨word, some e⟩) : ℕ) : ℝ)⟩) ∧
    t.mind.personality.lastLex = last ∧
    (∀ (xs : List Operation) (s : Sandwich) (p : Personality ℝ),
      p.cloud = t.mind.personality.cloud → p.lastLex = t.mind.personality.lastLex →
      (Order.reapply xs (s, p)).2.lastLex = last ∧ (Order.reapply xs (s, p)).2.ConfirmsEach) ∧
    ∀ (budget : Int) (text : String) (r : Except Fault (Reading ℝ)) (m : Mind ℝ),
      (Grammar.parse ⟨lex, budget⟩ true text).perform t.mind = (r, m) →
      t.mind.personality.Overhears lex.uniqueEntries (Phrase.wordsOf text) m.personality ∧
        ∀ reading, r = .ok reading → reading.lex.map (·.word) = Phrase.wordsOf text ∧
          ∀ w ∈ reading.lex, ∃ e ∈ lex.uniqueEntries, w.entry = some e := by
  have hrecalls := h.recalls
  refine ⟨hrecalls.distinct, fun word cloud hcloud => ?_, hrecalls.lastLex,
    fun xs s p hcloud hlast => ?_, fun budget text r m hparse => ?_⟩
  · exact hrecalls.clouds word cloud (Register.find?_of_mem hrecalls.distinct hcloud)
  · have hlater := Order.recalls_reapply xs (s, p) (hrecalls.congr hcloud hlast)
    exact ⟨hlater.lastLex, hlater.confirmsEach⟩
  · obtain ⟨hears, hreading⟩ := Grammar.parse_overhears hparse
    refine ⟨hears, fun reading hr => ⟨(hreading reading hr).1, fun w hw => ?_⟩⟩
    obtain ⟨e, hentry, hknows⟩ := (hreading reading hr).2 w hw
    exact ⟨e, (hrecalls.overhears hears).mem_of_knows hknows, hentry⟩

namespace House

/-- What the word for yes means. -/
def yes : Entry := ⟨.affirmation, .special, "yes"⟩

/-- The word for yes, understood. -/
def yesRead : LexedWord := ⟨"ha", some yes⟩

/-- A yes is a sentence. -/
theorem ends_sentence_yes (g : Grammar) (w : Word) (m : Mind ℝ) :
    Ends (g.sentence [⟨w, some yes.part, some yes⟩]) m
      (fun u m' => u = some (.affirm, .unused) ∧ m' = m) never := by
  unfold Grammar.sentence Mind.lucky
  rw [ends_bind, ends_get, ends_on]
  exact ⟨rfl, rfl⟩

/-- Somebody takes the word for yes to be one, as long as it was not confirmed. -/
theorem exists_hears_yes : ∃ chance : Chance ℝ, chance.Proper ∧ ∀ p : Personality ℝ,
    (Register.find? "ha" p.cloud = none ∨
      Register.find? "ha" p.cloud = some (Personality.evenCloud Lexicon.house.uniqueEntries)) →
    Ends (Grammar.parse ⟨Lexicon.house, 1⟩ true "ha") ⟨p, chance⟩
      (fun r m => r.operation = .affirm ∧ r.lex = [yesRead] ∧ m.chance.Proper) never := by
  have hyes : yes ∈ Lexicon.house.uniqueEntries := by decide +kernel
  obtain ⟨chance, hproper, himagine⟩ := Grammar.exists_imagineSenses hyes
  refine ⟨chance, hproper, fun p heven => ?_⟩
  have hread : Phrase.read "ha" = .ok [⟨[.consonantFirst .h .a]⟩] := rfl
  unfold Grammar.parse
  rw [hread]
  simp only [if_true]
  rw [show (1 : Int).toNat = 0 + 1 from rfl]
  unfold Grammar.tryAgain Grammar.tryOnce
  simp only [if_true]
  rw [ends_bind, ends_bind, ends_bind]
  refine (himagine p ⟨[.consonantFirst .h .a]⟩ heven).imp fun ts m hts => ?_
  obtain ⟨rfl, hm⟩ := hts
  rw [ends_bind, ends_attempt]
  refine (ends_sentence_yes _ _ m).mono (fun u m' hu => ?_) fun _ _ => False.elim
  obtain ⟨rfl, rfl⟩ := hu
  exact ⟨rfl, rfl, hm⟩

/-- A yes that is understood and served confirms the last reading. -/
theorem learns_yes {t : Table ℝ} {last : List LexedWord} {yeses : List (List LexedWord)}
    (h : t.Learns Lexicon.house last yeses) (hunconfirmed : ∀ w ∈ yeses.flatten, w.word ≠ "ha") :
    ∃ t' : Table ℝ, t'.Learns Lexicon.house [yesRead] (yeses ++ [last]) := by
  obtain ⟨chance, hproper, hhears⟩ := exists_hears_yes
  -- the next day, with nothing in force and no spite
  let p : Personality ℝ := { Order.House.bare.mind.personality with
    cloud := t.mind.personality.cloud, lastLex := t.mind.personality.lastLex }
  have hday : (⟨{}, p, chance⟩ : Table ℝ).Learns Lexicon.house last yeses := h.meanwhile rfl rfl
  have heven : Register.find? "ha" p.cloud = none ∨
      Register.find? "ha" p.cloud = some (Personality.evenCloud Lexicon.house.uniqueEntries) := by
    cases hcloud : Register.find? "ha" p.cloud with
    | none => exact Or.inl rfl
    | some cloud =>
      rw [hday.recalls.clouds _ _ hcloud, Personality.confirmedCloud_of_forall_ne hunconfirmed]
      exact Or.inr rfl
  obtain ⟨r, m, hparse, hoperation, hlex, hm⟩ := (hhears p heven).exists
  obtain ⟨⟨fresh, -, -, hp⟩, -⟩ := Grammar.parse_overhears hparse
  have hserves : Order.Serves {} ⟨{}, m⟩ := by
    refine ⟨Sandwich.plain_empty, ?_, hm⟩
    show m.personality.Counted
    rw [hp]
    exact (Order.House.serves_bare []).2.counted
  have hkind : (⟨{}, m⟩ : Table ℝ).spiteful = false := Table.not_spiteful (by rw [hp]; rfl) hm
  have hyeses : (⟨{}, m⟩ : Table ℝ).yeses r.operation = 1 := by
    rw [hoperation, Table.yeses, Table.heeds_of_kind hkind]
    rfl
  obtain ⟨a, t', hserve, -⟩ := (Order.ends_serve hserves r.operation r.skills r.lex).exists
  have hlearns := hday.served hparse hserve
  rw [hlex, hyeses] at hlearns
  exact ⟨t', hlearns⟩

/-- Who understood a yes twice takes it for one twice as readily: the second yes confirmed the first. -/
theorem clouds_tell_yes : ∃ t : Table ℝ, t.Learns Lexicon.house [yesRead] [[], [yesRead]] ∧
    Register.find? "ha" t.mind.personality.cloud = some (Lexicon.house.uniqueEntries.map fun e =>
      ⟨e, ((if e = yes then 2 else 1 : ℕ) : ℝ)⟩) ∧
    t.mind.personality.ConfirmsEach := by
  have hstart : Order.House.bare.Learns Lexicon.house [] [] := .start rfl rfl
  obtain ⟨t₁, hfirst⟩ := learns_yes hstart nofun
  obtain ⟨t₂, hsecond⟩ := learns_yes hfirst (by simp)
  obtain ⟨-, hclouds, -, hnext, -⟩ := clouds_tell hsecond
  obtain ⟨e, -, -, cloud, hcloud⟩ := hsecond.recalls.read yesRead (List.mem_singleton_self _)
  refine ⟨t₂, hsecond, ?_, (hnext [] {} t₂.mind.personality rfl rfl).2⟩
  have hcloud : Register.find? "ha" t₂.mind.personality.cloud = some cloud := hcloud
  rw [hcloud, hclouds _ _ (Register.mem_keys_of_find? hcloud)]
  refine congrArg some (List.map_congr_left fun e _ => ?_)
  have hcount : ([[], [yesRead]].flatten : List LexedWord).count ⟨"ha", some e⟩ =
      if e = yes then 1 else 0 := by
    by_cases he : e = yes
    · simp [he, yesRead]
    · simp [he, yesRead, Ne.symm he]
  show (⟨e, ((min (10 ^ 6) (2 ^ [[], [yesRead]].flatten.count ⟨"ha", some e⟩) : ℕ) : ℝ)⟩ :
    Meaning ℝ) = _
  rw [hcount]
  split <;> rfl

end House

end Table

end DeliTalk
