import DiceFormula.Proofs.Formula.Order
import Mathlib.Algebra.Ring.Int.Parity
import Mathlib.Data.Rat.Cast.Defs
import Mathlib.Tactic.Linarith
import Mathlib.Tactic.Ring

/-!
# What rounding adds

An average is rounded up once for each term, and the mean of a term is a whole
number or lies halfway between two. So the average of a formula exceeds its
exact mean by half a point for each term of the second kind, an odd count of
dice with an even number of sides (`average_eq_mean_add`). Counts, sides and
constants may be negative, and the order of the terms does not matter.
-/

namespace DiceFormula

namespace Dice

def mean (d : Dice) : ℚ := d.count * (d.sides + 1) / 2

/-- Whether the mean lies halfway between two whole numbers. -/
def isHalfway (d : Dice) : Bool := Odd d.count ∧ Even d.sides

theorem two_mul_average_eq (d : Dice) :
    2 * d.average = d.count * (d.sides + 1) + (if d.isHalfway then 1 else 0) := by
  have hodd : Odd (d.count * (d.sides + 1)) ↔ d.isHalfway = true := by
    rw [Int.odd_mul, odd_add_one, isHalfway, decide_eq_true_iff]
  rw [two_mul_average]
  by_cases h : d.isHalfway = true
  · rw [if_pos h, Int.odd_iff.1 (hodd.2 h)]
  · rw [if_neg h, Int.even_iff.1 (Int.not_odd_iff_even.1 fun ho => h (hodd.1 ho))]

end Dice

namespace Formula

/-- The mean of a formula, not rounded. -/
def mean (f : Formula) : ℚ := (f.dice.map Dice.mean).sum + (f.constants.sum : Int)

/-- The number of terms that are rounded. -/
def halves (f : Formula) : Nat := f.dice.countP Dice.isHalfway

theorem two_mul_mean (f : Formula) :
    2 * f.mean = (((f.dice.map fun d => d.count * (d.sides + 1)).sum +
      2 * f.constants.sum : Int) : ℚ) := by
  have hdice : 2 * (f.dice.map Dice.mean).sum =
      (((f.dice.map fun d => d.count * (d.sides + 1)).sum : Int) : ℚ) := by
    induction f.dice with
    | nil => simp
    | cons d ds ih =>
      rw [List.map_cons, List.map_cons, List.sum_cons, List.sum_cons, mul_add, ih, Dice.mean]
      push_cast
      ring
  rw [mean, mul_add, hdice]
  push_cast
  rfl

/-- Each term that is rounded adds one to twice the average. -/
theorem two_mul_average_eq (f : Formula) :
    2 * f.average = (f.dice.map fun d => d.count * (d.sides + 1)).sum + 2 * f.constants.sum
      + f.halves := by
  have hdice : 2 * (f.dice.map Dice.average).sum =
      (f.dice.map fun d => d.count * (d.sides + 1)).sum + f.halves := by
    unfold halves
    induction f.dice with
    | nil => rfl
    | cons d ds ih =>
      rw [List.map_cons, List.map_cons, List.sum_cons, List.sum_cons, List.countP_cons, Int.mul_add,
        ih, d.two_mul_average_eq]
      push_cast
      omega
  rw [average, Int.mul_add, hdice]
  omega

theorem average_sub_mean (f : Formula) : (f.average : ℚ) - f.mean = (f.halves : ℚ) / 2 := by
  have haverage := congrArg (fun n : Int => (n : ℚ)) f.two_mul_average_eq
  have hmean := f.two_mul_mean
  push_cast at haverage hmean
  linarith

namespace Perm

variable {f g : Formula} (h : f.Perm g)

include h

theorem mean_eq : f.mean = g.mean := by
  rw [mean, mean, (h.dice.map Dice.mean).sum_eq, h.constants.sum_eq]

theorem halves_eq : f.halves = g.halves := h.dice.countP_eq _

end Perm

/-- `f.average` is the exact mean and half a point for each of the `f.halves` terms that are
rounded. None of these numbers depends on the order of the terms. -/
theorem average_eq_mean_add (f : Formula) :
    2 * f.average = (f.dice.map fun d => d.count * (d.sides + 1)).sum + 2 * f.constants.sum
        + f.halves ∧
      (f.average : ℚ) = f.mean + (f.halves : ℚ) / 2 ∧ f.mean ≤ f.average ∧
      ∀ g, f.Perm g → g.average = f.average ∧ g.mean = f.mean ∧ g.halves = f.halves := by
  have hexcess := f.average_sub_mean
  have hhalves : (0 : ℚ) ≤ f.halves := Nat.cast_nonneg _
  refine ⟨f.two_mul_average_eq, by linarith, by linarith, fun g h => ?_⟩
  exact ⟨h.average_eq.symm, h.mean_eq.symm, h.halves_eq.symm⟩

/-- Three terms of which two are rounded, one of them of less than no dice, in two orders. -/
theorem average_eq_mean_add_negative :
    let f : Formula := ⟨[⟨3, 6⟩, ⟨-3, 4⟩, ⟨2, 8⟩], [-5]⟩
    let g : Formula := ⟨[⟨2, 8⟩, ⟨3, 6⟩, ⟨-3, 4⟩], [-5]⟩
    f.Perm g ∧ f.halves = 2 ∧ f.average = 8 ∧ (f.average : ℚ) = f.mean + 1 ∧ f.mean ≤ f.average ∧
      g.average = 8 ∧ g.mean = f.mean := by
  intro f g
  have hperm : f.Perm g := ⟨by decide, by decide⟩
  have hhalves : f.halves = 2 := by decide
  have haverage : f.average = 8 := by decide
  obtain ⟨-, hmean, hle, hsame⟩ := f.average_eq_mean_add
  obtain ⟨hother, hotherMean, -⟩ := hsame g hperm
  rw [hhalves] at hmean
  exact ⟨hperm, hhalves, haverage, by simpa using hmean, hle, hother.trans haverage, hotherMean⟩

end Formula

end DiceFormula
