/-!
# Formulas

A formula is a sum of dice and constants: `count` dice of `sides` sides each,
and numbers to add. The average of dice is rounded up, term by term.
-/

namespace DiceFormula

/-- `count` alike dice that are rolled together. -/
structure Dice where
  count : Int
  sides : Int
  deriving DecidableEq, Repr

structure Formula where
  dice : List Dice
  constants : List Int
  deriving DecidableEq, Repr

/-- `count * (sides + 1) / 2`, rounded up; negative dice included. -/
def Dice.average (d : Dice) : Int :=
  (d.count * (d.sides + 1) + 1) / 2

theorem Dice.two_mul_average (d : Dice) :
    2 * d.average = d.count * (d.sides + 1) + d.count * (d.sides + 1) % 2 := by
  unfold average
  omega

namespace Formula

-- a sum of integers begins with the numeral `0`, whichever other zeros there are
attribute [local instance (high)] Zero.ofOfNat0

def average (f : Formula) : Int :=
  (f.dice.map Dice.average).sum + f.constants.sum

/-- The dice and constants of `f` and `g` together. -/
def add (f g : Formula) : Formula :=
  ⟨f.dice ++ g.dice, f.constants ++ g.constants⟩

theorem average_add (f g : Formula) : (f.add g).average = f.average + g.average := by
  simp only [average, add, List.map_append, List.sum_append]
  omega

end Formula

end DiceFormula
