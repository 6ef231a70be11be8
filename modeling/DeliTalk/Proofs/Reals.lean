import DeliTalk.Personality
import Mathlib.Analysis.SpecialFunctions.Log.Basic

/-!
# Real numbers as scalars

Dispositions, skills and chances over the real numbers, where sums and products are what they
should be.

* The instance of `Scalar`, and what its operations are.
* The sums of skills: `Language` over the reals is a commutative monoid.
-/

namespace DeliTalk

/-! ## 1. The scalars -/

/-- The integer nearest to a real number, a half to the even neighbour. -/
noncomputable def nearestEven (x : ℝ) : Int :=
  if x - ⌊x⌋ < 1 / 2 then ⌊x⌋
  else if 1 / 2 < x - ⌊x⌋ then ⌊x⌋ + 1
  else if ⌊x⌋ % 2 = 0 then ⌊x⌋ else ⌊x⌋ + 1

noncomputable instance : Scalar ℝ where
  decLt := inferInstance
  decLe := inferInstance
  ofInt n := n
  ln := Real.log
  isFinite _ := true
  floor x := ⌊x⌋
  nearest digits x := nearestEven (x * 10 ^ digits)
  infinity := 0
  undefined := 0

namespace Scalar

@[simp] theorem ofInt_real (n : Int) : (ofInt n : ℝ) = n := rfl

@[simp] theorem ofNat_real (n : Nat) : (ofNat n : ℝ) = n := Int.cast_natCast n

@[simp] theorem ln_real (x : ℝ) : ln x = Real.log x := rfl

@[simp] theorem isFinite_real (x : ℝ) : isFinite x = true := rfl

@[simp] theorem floor_real (x : ℝ) : floor x = ⌊x⌋ := rfl

theorem least_real (x y : ℝ) : least x y = min x y := by
  unfold least
  split
  · rename_i h
    exact (min_eq_right (le_of_lt h)).symm
  · rename_i h
    exact (min_eq_left (not_lt.mp h)).symm

theorem greatest_real (x y : ℝ) : greatest x y = max x y := by
  unfold greatest
  split
  · rename_i h
    exact (max_eq_right (le_of_lt h)).symm
  · rename_i h
    exact (max_eq_left (not_lt.mp h)).symm

end Scalar

/-! ## 2. Sums of skills -/

namespace Language

theorem ext_get {l m : Language ℝ} (h : ∀ s, l.get s = m.get s) : l = m := by
  obtain ⟨a, b, c, d⟩ := l
  obtain ⟨a', b', c', d'⟩ := m
  have ha := h .adposition
  have hb := h .conjunction
  have hc := h .numbers
  have hd := h .adverbs
  simp only [get] at ha hb hc hd
  rw [ha, hb, hc, hd]

theorem get_add (l m : Language ℝ) (s : Skill) : (l + m).get s = l.get s + m.get s := by
  cases s <;> rfl

theorem get_unused (s : Skill) : (unused : Language ℝ).get s = 0 := by
  cases s <;> exact Int.cast_zero

noncomputable instance : Zero (Language ℝ) := ⟨unused⟩

theorem unused_eq_zero : (unused : Language ℝ) = 0 := rfl

theorem get_zero (s : Skill) : (0 : Language ℝ).get s = 0 := get_unused s

noncomputable instance : AddCommMonoid (Language ℝ) where
  add_assoc l m n := ext_get fun s => by simp only [get_add, add_assoc]
  zero_add l := ext_get fun s => by rw [get_add, get_zero, zero_add]
  add_zero l := ext_get fun s => by rw [get_add, get_zero, add_zero]
  add_comm l m := ext_get fun s => by simp only [get_add, add_comm]
  nsmul := nsmulRec

end Language

end DeliTalk
