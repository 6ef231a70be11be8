import DeliTalk.Proofs.Replies

/-!
# What stays in force

A server keeps an instruction in force if anything in it was said to last, and it keeps all of it:
at the beginning of every later turn the whole instruction is done again. So what was said in the
same breath as something lasting lasts with it. An instruction in force is cancelled by its exact
opposite and by nothing else: a ban said to last once is lifted by a request on top, but not by one
that names a place or a number.

* `Operation.steps`, `lasting`, `passing`: the single operations in an operation as they are done
  one after the other, and which of them were said to last.
* `Order.Given`: where the instructions of some turns without spite lead.
* `Order.Given.standing_sublist`: what is in force was said.
* `Order.reapplied_because`: what is done again because of one instruction.
* `Operation.ban`, `Operation.PutsOn`: being told to take something off for good, or to put it on.
* `Order.bans_served`: which bans a request leaves in force, and what later turns take off.
-/

namespace DeliTalk

/-! ## 1. Single steps -/

namespace Operation

/-- The single operations an operation comes down to, in the order they are done. -/
def steps : Operation → List Operation
  | repeated n x => (List.replicate n (steps x)).flatten
  | compound x y => steps x ++ steps y
  | persist x => steps x
  | x => [x]

/-- Those of the steps that were said to last. -/
def lasting : Operation → List Operation
  | repeated n x => (List.replicate n (lasting x)).flatten
  | compound x y => lasting x ++ lasting y
  | persist x => steps x
  | _ => []

/-- Those of the steps that were not said to last. -/
def passing : Operation → List Operation
  | repeated n x => (List.replicate n (passing x)).flatten
  | compound x y => passing x ++ passing y
  | persist _ => []
  | x => [x]

theorem perm_append {xs ys as bs cs ds : List Operation} (h : xs.Perm (as ++ bs))
    (h' : ys.Perm (cs ++ ds)) : (xs ++ ys).Perm ((as ++ cs) ++ (bs ++ ds)) := by
  refine (h.append h').trans ?_
  rw [List.append_assoc, List.append_assoc]
  exact (List.perm_append_comm_assoc bs cs ds).append_left as

/-- **Every step** was said to last or not. -/
theorem steps_perm (x : Operation) : x.steps.Perm (x.lasting ++ x.passing) := by
  induction x with
  | repeated n x ih =>
    unfold steps lasting passing
    induction n with
    | zero => exact .refl _
    | succ n ihn =>
      simp only [List.replicate_succ, List.flatten_cons]
      exact perm_append ih ihn
  | compound x y ihx ihy => exact perm_append ihx ihy
  | persist x ih =>
    unfold lasting passing
    rw [List.append_nil]
    exact .refl _
  | _ => exact .refl _

theorem lasting_sublist (x : Operation) : x.lasting.Sublist x.steps := by
  induction x with
  | repeated n x ih =>
    unfold steps lasting
    induction n with
    | zero => exact .refl _
    | succ n ihn =>
      simp only [List.replicate_succ, List.flatten_cons]
      exact ih.append ihn
  | compound x y ihx ihy => exact ihx.append ihy
  | persist x ih => exact .refl _
  | _ => exact List.nil_sublist _

/-- All steps are among those that last exactly if none is passing. -/
theorem steps_sublist_lasting {x : Operation} : x.steps.Sublist x.lasting ↔ x.passing = [] := by
  have hlength := x.steps_perm.length_eq
  rw [List.length_append] at hlength
  constructor
  · intro h
    have hle := h.length_le
    exact List.length_eq_zero_iff.mp (by omega)
  · intro h
    rw [h, List.length_nil, Nat.add_zero] at hlength
    rw [x.lasting_sublist.eq_of_length hlength.symm]

end Operation

namespace Order

variable {R : Type} [Scalar R]

theorem reapply_append (xs ys : List Operation) (sp : Sandwich × Personality R) :
    reapply (xs ++ ys) sp = reapply ys (reapply xs sp) := List.foldl_append

end Order

/-- **An operation does its steps**, one after the other. -/
theorem Operation.apply_steps {R : Type} [Scalar R] (x : Operation)
    (sp : Sandwich × Personality R) : x.apply sp = Order.reapply x.steps sp := by
  induction x generalizing sp with
  | repeated n x ih =>
    have hrepeat : ∀ n : Nat, n.repeat x.apply sp =
        Order.reapply (List.replicate n x.steps).flatten sp := by
      intro n
      induction n with
      | zero => rfl
      | succ n ihn =>
        rw [List.replicate_succ', List.flatten_append, List.flatten_singleton,
          Order.reapply_append, ← ihn]
        exact ih _
    exact hrepeat n
  | compound x y ihx ihy =>
    rw [steps, Order.reapply_append, ← ihx, ← ihy]
    rfl
  | persist x ih => exact ih sp
  | _ => rfl

/-! ## 2. Turns without spite -/

namespace Order

open Act Operation

variable {R : Type} [Scalar R]

/-- What is in force does its steps, one after the other. -/
theorem reapply_steps : ∀ (standing : List Operation) (sp : Sandwich × Personality R),
    reapply standing sp = reapply (standing.flatMap steps) sp
  | [], _ => rfl
  | x :: rest, sp => by
    rw [List.flatMap_cons, reapply_append, ← x.apply_steps]
    exact reapply_steps rest (x.apply sp)

/-- Where the instructions of some turns lead from an order, none of them turned around by spite.
Only the order is carried from turn to turn: the machine and the sandwich may be any, and a turn may
end in a fault. -/
inductive Given (R : Type) [Scalar R] (o : Order) : List Operation → Order → Prop where
  | nothing : Given R o [] o
  | served {xs : List Operation} {t t' : Table R} {heard : Operation} {skills : Language R}
      {lex : List LexedWord} {s : Sandwich} {r : Except Fault (Sandwich × Option Operation)}
      (h : Given R o xs t.order) (hkind : t.spiteful = false)
      (hserve : (serve heard skills lex s).perform t = (r, t')) : Given R o (xs ++ [heard]) t'.order

section

variable {t t' : Table R} {heard : Operation} {skills : Language R} {lex : List LexedWord}
  {s : Sandwich}

/-- A turn without spite cancels what the instruction contradicts, and keeps it if it is to last. -/
theorem standing_of_ok (hkind : t.spiteful = false) {a : Sandwich × Option Operation}
    (h : (serve heard skills lex s).perform t = (.ok a, t')) :
    t'.order.standing = ((t.order.countermand heard).keep heard).standing := by
  rw [perform_serve, Table.heeds_of_kind hkind] at h
  generalize Personality.fade skills.used ((t.edited heard s).2.upgrade skills) = r at h
  obtain ⟨r, q⟩ := r
  cases r with
  | ok u =>
    cases h
    rfl
  | error e => cases h

/-- A turn that ends in a fault leaves the order alone. -/
theorem order_of_error {e : Fault}
    (h : (serve heard skills lex s).perform t = (.error e, t')) : t'.order = t.order := by
  rw [perform_serve] at h
  generalize Personality.fade skills.used ((t.edited heard s).2.upgrade skills) = r at h
  obtain ⟨r, q⟩ := r
  cases r with
  | ok u => cases h
  | error e => cases h; rfl

end

theorem mem_keep {o : Order} {x y : Operation} :
    y ∈ (o.keep x).standing ↔ y ∈ o.standing ∨ x.isPersistent = true ∧ y = x := by
  unfold keep
  split
  · rename_i h
    simp [h]
  · rename_i h
    simp [h]

/-- **What is in force was said**, each instruction once at most, in the order they were given; and
what was not in force from the beginning has something lasting in it. -/
theorem Given.standing_sublist {o o' : Order} {xs : List Operation} (h : Given R o xs o') :
    o'.standing.Sublist (o.standing ++ xs) ∧
      ∀ y ∈ o'.standing, y ∈ o.standing ∨ y.isPersistent = true := by
  induction h with
  | nothing =>
    rw [List.append_nil]
    exact ⟨.refl _, fun y hy => Or.inl hy⟩
  | @served xs t t' heard skills lex s r _ hkind hserve ih =>
    obtain ⟨hsub, hlasts⟩ := ih
    rw [← List.append_assoc]
    cases r with
    | error e =>
      rw [order_of_error hserve]
      exact ⟨hsub.trans (List.sublist_append_left _ _), hlasts⟩
    | ok a =>
      have hstanding := standing_of_ok hkind hserve
      have hleft : (t.order.countermand heard).standing.Sublist t.order.standing :=
        List.filter_sublist
      constructor
      · rw [hstanding]
        unfold keep
        split
        · exact (hleft.trans hsub).append (.refl _)
        · exact (hleft.trans hsub).trans (List.sublist_append_left _ _)
      · intro y hy
        rw [hstanding, mem_keep] at hy
        rcases hy with hy | ⟨hpersistent, rfl⟩
        · exact hlasts y (hleft.subset hy)
        · exact Or.inr hpersistent

/-! ## 3. What is done again -/

/-- **What is done again because of one instruction** is nothing, or all of it, and then something
in it was said to last. All of what is done again was said to last exactly if nothing is, or the
instruction has no passing step. -/
theorem reapplied_because {o : Order} (hnew : o.standing = []) {before after : List Operation}
    {x : Operation} {t : Table R} (h : Given R o (before ++ x :: after) t.order) :
    ∃ earlier own later : List Operation, t.order.standing = earlier ++ own ++ later ∧
      earlier.Sublist before ∧ later.Sublist after ∧
      (own = [] ∨ own = [x] ∧ x.isPersistent = true) ∧
      (∀ sp : Sandwich × Personality R, reapply t.order.standing sp =
        reapply (earlier.flatMap steps ++ own.flatMap steps ++ later.flatMap steps) sp) ∧
      ((own.flatMap steps).Sublist x.lasting ↔ own = [] ∨ x.passing = []) := by
  obtain ⟨hsub, hlasts⟩ := h.standing_sublist
  rw [hnew, List.nil_append] at hsub
  obtain ⟨earlier, rest, hstanding, hearlier, hrest⟩ := List.sublist_append_iff.mp hsub
  have hreapply : ∀ (own later : List Operation) (sp : Sandwich × Personality R),
      reapply (earlier ++ own ++ later) sp =
        reapply (earlier.flatMap steps ++ own.flatMap steps ++ later.flatMap steps) sp := by
    intro own later sp
    rw [reapply_steps, List.flatMap_append, List.flatMap_append]
  rcases List.sublist_cons_iff.mp hrest with hlater | ⟨later, rfl, hlater⟩
  · have hsplit : t.order.standing = earlier ++ [] ++ rest := by
      rw [hstanding, List.append_nil]
    refine ⟨earlier, [], rest, hsplit, hearlier, hlater, Or.inl rfl, fun sp => ?_, ?_⟩
    · rw [hsplit]
      exact hreapply [] rest sp
    · simp
  · have hsplit : t.order.standing = earlier ++ [x] ++ later := by
      rw [hstanding, List.append_assoc]
      rfl
    have hpersistent : x.isPersistent = true := by
      refine (hlasts x (by simp [hsplit])).resolve_left fun hx => ?_
      rw [hnew] at hx
      cases hx
    refine ⟨earlier, [x], later, hsplit, hearlier, hlater, Or.inr ⟨rfl, hpersistent⟩,
      fun sp => ?_, ?_⟩
    · rw [hsplit]
      exact hreapply [x] later sp
    · rw [List.flatMap_singleton, steps_sublist_lasting]
      exact (or_iff_right (List.cons_ne_nil x [])).symm

namespace House

/-- A server without spite and with nothing in force can serve, whatever is in force. -/
theorem serves_bare (standing : List Operation) :
    Serves {} ({ bare with order := { standing := standing } } : Table ℝ) := by
  have hcounted : bare.mind.personality.Counted := fun skill => by
    show -1 ≤ (Register.find? skill.name []).getD 0
    exact Int.neg_le_of_neg_le (Int.zero_le_ofNat 1)
  exact ⟨Sandwich.plain_empty, hcounted, fun _ => ⟨le_refl 0, zero_lt_one⟩⟩

theorem kind_bare (standing : List Operation) :
    ({ bare with order := { standing := standing } } : Table ℝ).spiteful = false :=
  Table.not_spiteful rfl fun _ => ⟨le_refl 0, zero_lt_one⟩

/-- No ham ever again, and some cheese. -/
def noHamAndCheese : Operation :=
  .compound (.persist (.remove ham)) (.add ⟨"cheddar", "pe", none⟩ .top)

/-- The cheese was not said to last, but it is put on again every turn. -/
theorem reapplied_cheese : ∃ t : Table ℝ, Given ℝ {} [noHamAndCheese] t.order ∧
    t.order.standing = [noHamAndCheese] ∧
      ¬ ([noHamAndCheese].flatMap steps).Sublist noHamAndCheese.lasting := by
  obtain ⟨a, t, hserve, -⟩ := (ends_serve (serves_bare []) noHamAndCheese .unused []).exists
  have hgiven : Given ℝ {} ([] ++ noHamAndCheese :: []) t.order :=
    Given.nothing.served (kind_bare []) hserve
  have hstanding : t.order.standing = [noHamAndCheese] :=
    standing_of_ok (kind_bare []) hserve
  obtain ⟨earlier, own, later, hsplit, hearlier, hlater, -, -, hlasts⟩ :=
    reapplied_because rfl hgiven
  rw [List.sublist_nil.mp hearlier, List.sublist_nil.mp hlater, hstanding] at hsplit
  have hown : own = [noHamAndCheese] := by
    rw [List.nil_append, List.append_nil] at hsplit
    exact hsplit.symm
  rw [hown] at hlasts
  refine ⟨t, hgiven, hstanding, fun hsub => ?_⟩
  rcases hlasts.mp hsub with h | h <;> cases h

end House

end Order

/-! ## 4. Bans and requests -/

namespace Operation

/-- Taking an ingredient off, said to last so many times over. -/
def ban (i : Ingredient) : Nat → Operation
  | 0 => remove i
  | k + 1 => persist (ban i k)

/-- Whether an operation adds an ingredient, anywhere, once or a number of times. -/
inductive Adds (i : Ingredient) : Operation → Prop where
  | once {j : Ingredient} {r : Relative} (same : j.name = i.name) : Adds i (.add j r)
  | several {j : Ingredient} {r : Relative} {n : Nat} (same : j.name = i.name) :
      Adds i (.repeated n (.add j r))

/-- Whether an operation asks for an ingredient to be put on, for good or not. -/
def PutsOn (i : Ingredient) (x : Operation) : Prop := Adds i (Order.unwrapped x)

/-- Whether an operation says so on top and without a number. -/
def OnTop (x : Operation) : Prop := ∃ j, Order.unwrapped x = .add j .top

/-- Whether an operation has some taking off of a name in it. -/
def TakesOff (name : String) (x : Operation) : Prop :=
  ∃ i, i.name = name ∧ (.remove i ∈ x.singles ∨ .removeAll i ∈ x.singles)

theorem sameRelative_top {r : Relative} : sameRelative .top r = true ↔ r = .top := by
  obtain ⟨position, anchor⟩ := r
  cases position <;> cases anchor <;> simp [sameRelative, Relative.top]

/-- **The opposite of a ban** is a request on top, if the ban is not said to last itself. -/
theorem same_reverse_ban {i j : Ingredient} {x : Operation} (hadds : Adds i x)
    (hname : j.name = i.name) (k : Nat) :
    ((ban j k).reverse.same x = true) ↔ k = 0 ∧ ∃ j', x = .add j' .top := by
  cases k with
  | zero =>
    cases hadds with
    | @once j' r same =>
      show (j.same j' && sameRelative .top r) = true ↔ _
      have hsame : j.same j' = true := beq_iff_eq.mpr (hname.trans same.symm)
      rw [hsame, Bool.true_and, sameRelative_top]
      simp
    | several same =>
      show false = true ↔ _
      simp
  | succ k =>
    cases hadds with
    | once same =>
      show false = true ↔ _
      simp
    | several same =>
      show false = true ↔ _
      simp

/-- What is taken off while an operation is applied, it meant to take off. -/
theorem takesOff_of_tookOff {R : Type} [Scalar R] {name : String} {x : Operation}
    {sp : Sandwich × Personality R} (h : .tookOff name ∈ x.incidents sp) : x.TakesOff name := by
  rcases meant_of_mem_incidents h with ⟨i, r, -, hput | hlacked⟩ | ⟨i, hi, htook⟩
  · cases hput
  · cases hlacked
  · cases htook
    exact ⟨i, rfl, hi⟩

end Operation

namespace Order

open Act Operation

variable {R : Type} [Scalar R]

/-- What is taken off by what is in force, some of it meant to take off. -/
theorem exists_takesOff {name : String} : ∀ {standing : List Operation}
    {sp : Sandwich × Personality R}, .tookOff name ∈ incidents standing sp →
      ∃ y ∈ standing, y.TakesOff name
  | x :: rest, sp, h => by
    rcases List.mem_append.mp h with h | h
    · exact ⟨x, List.mem_cons_self, takesOff_of_tookOff h⟩
    · obtain ⟨y, hy, hoff⟩ := exists_takesOff h
      exact ⟨y, List.mem_cons_of_mem x hy, hoff⟩

/-! ## 5. Requests against bans -/

section

variable {i : Ingredient} {heard : Operation} {t t' : Table R} {skills : Language R}
  {lex : List LexedWord} {s : Sandwich} {a : Sandwich × Option Operation}

/-- A request leaves the bans in force that it does not contradict to the letter. -/
theorem mem_standing_ban (hkind : t.spiteful = false) (hputs : heard.PutsOn i)
    (hserve : (serve heard skills lex s).perform t = (.ok a, t')) {j : Ingredient}
    (hname : j.name = i.name) (k : Nat) : ban j (k + 1) ∈ t'.order.standing ↔
      ban j (k + 1) ∈ t.order.standing ∧ ¬ (k = 0 ∧ heard.OnTop) := by
  -- the request itself is no ban
  have hother : ban j (k + 1) ≠ heard := by
    intro heq
    rw [← heq] at hputs
    cases k <;> cases hputs
  rw [standing_of_ok hkind hserve, mem_keep, or_iff_left fun h => hother h.2]
  show ban j (k + 1) ∈ t.order.standing.filter _ ↔ _
  rw [List.mem_filter]
  refine and_congr_right fun _ => ?_
  rw [Bool.not_eq_true', ← Bool.not_eq_true]
  exact not_congr (same_reverse_ban hputs hname k)

/-- A request on top leaves nothing in force that takes the ingredient off, if there were only bans
said to last once. -/
theorem not_takesOff_standing (hkind : t.spiteful = false) (hputs : heard.PutsOn i)
    (hserve : (serve heard skills lex s).perform t = (.ok a, t')) (htop : heard.OnTop)
    (hbans : ∀ y ∈ t.order.standing, y.TakesOff i.name → ∃ j, y = ban j 1) :
    ∀ y ∈ t'.order.standing, ¬ y.TakesOff i.name := by
  intro y hy hoff
  have hmem := hy
  rw [standing_of_ok hkind hserve, mem_keep] at hmem
  rcases hmem with hmem | ⟨-, rfl⟩
  · obtain ⟨j, rfl⟩ := hbans y (List.mem_of_mem_filter hmem) hoff
    have hname : j.name = i.name := by
      obtain ⟨j', hname, hj | hj⟩ := hoff
      · cases List.mem_singleton.mp hj
        exact hname
      · cases List.mem_singleton.mp hj
    exact ((mem_standing_ban hkind hputs hserve hname 0).mp hy).2 ⟨rfl, htop⟩
  · -- what adds on top takes nothing off
    obtain ⟨j, hj⟩ := htop
    have hsingles : y.singles = [.add j .top] := by
      cases y with
      | persist z =>
        cases hj
        rfl
      | add j' r =>
        cases hj
        rfl
      | _ => cases hj
    obtain ⟨j', -, hj' | hj'⟩ := hoff
    · rw [hsingles] at hj'
      cases List.mem_singleton.mp hj'
    · rw [hsingles] at hj'
      cases List.mem_singleton.mp hj'

/-- **Which bans a request leaves in force**: those that are said to last more than once, and all of
them if the request names a place or a number, or the turn ends in a fault. If none of this is so, and
nothing but bans said to last once would take the ingredient off, no later turn takes it off until it
is told to. -/
theorem bans_served {r : Except Fault (Sandwich × Option Operation)} (hkind : t.spiteful = false)
    (hputs : heard.PutsOn i) (hserve : (serve heard skills lex s).perform t = (r, t')) :
    (∀ j k, j.name = i.name → (ban j (k + 1) ∈ t'.order.standing ↔
      ban j (k + 1) ∈ t.order.standing ∧ ¬ (k = 0 ∧ heard.OnTop ∧ r.isOk = true))) ∧
    (heard.OnTop → r.isOk = true →
      (∀ y ∈ t.order.standing, y.TakesOff i.name → ∃ j, y = ban j 1) →
      ∀ (xs : List Operation) (t₁ : Table R) (x : Operation) (s₁ : Sandwich),
        Given R t'.order xs t₁.order → t₁.spiteful = false →
        (∀ y ∈ x :: xs, ¬ y.TakesOff i.name) → .tookOff i.name ∉ t₁.incidents x s₁) := by
  cases r with
  | error e =>
    refine ⟨fun j k _ => ?_, fun _ h => nomatch h⟩
    rw [order_of_error hserve]
    exact (and_iff_left fun h => nomatch h.2.2).symm
  | ok a =>
    refine ⟨fun j k hname => ?_, fun htop _ hbans xs t₁ x s₁ hgiven hkind₁ htold htook => ?_⟩
    · have hok : (Except.ok a : Except Fault _).isOk = true := rfl
      rw [mem_standing_ban hkind hputs hserve hname k, hok, and_iff_left rfl]
    · have hnone := not_takesOff_standing hkind hputs hserve htop hbans
      rcases List.mem_append.mp htook with hagain | hnow
      · obtain ⟨y, hy, hoff⟩ := exists_takesOff hagain
        rcases List.mem_append.mp (hgiven.standing_sublist.1.subset hy) with hold | hnew
        · exact hnone y hold hoff
        · exact htold y (List.mem_cons_of_mem x hnew) hoff
      · rw [Table.heeds_of_kind hkind₁] at hnow
        exact htold x List.mem_cons_self (takesOff_of_tookOff hnow)

end

namespace House

/-- Where ham is banned, ham on a tomato does not lift the ban, and ham on top does. -/
theorem bans_served_ham :
    (∃ a t', (serve (.add ham (.after ⟨"tomato", "to", none⟩)) .unused [] {}).perform
        { bare with order := { standing := [ban ham 1] } } = (.ok a, t') ∧
      ban ham 1 ∈ t'.order.standing) ∧
    ∃ a t', (serve (.add ham .top) .unused [] {}).perform
        { bare with order := { standing := [ban ham 1] } } = (.ok a, t') ∧
      ban ham 1 ∉ t'.order.standing := by
  have hserves := serves_bare [ban ham 1]
  have hkind := kind_bare [ban ham 1]
  have hin : ban ham 1 ∈ [ban ham 1] := List.mem_singleton_self _
  have hputs : ∀ r, PutsOn ham (.add ham r) := fun r => Adds.once rfl
  constructor
  · obtain ⟨a, t', hserve, -⟩ :=
      (ends_serve hserves (.add ham (.after ⟨"tomato", "to", none⟩)) .unused []).exists
    refine ⟨a, t', hserve, ((bans_served hkind (hputs _) hserve).1 ham 0 rfl).mpr ⟨hin, ?_⟩⟩
    intro h
    obtain ⟨j, hj⟩ := h.2.1
    cases hj
  · obtain ⟨a, t', hserve, -⟩ := (ends_serve hserves (.add ham .top) .unused []).exists
    refine ⟨a, t', hserve, fun h => ?_⟩
    exact (((bans_served hkind (hputs _) hserve).1 ham 0 rfl).mp h).2 ⟨rfl, ⟨ham, rfl⟩, rfl⟩

end House

end Order

end DeliTalk
