import DiceFormula.Formula.Read
import DiceFormula.Roll.Uniform

/-!
# Rolling dice

Dice are rolled one at a time from the left, and their faces added. Dice that
number none or fewer are not rolled, whatever their sides. `evaluate` reads a
formula in full before it rolls the first die.
-/

namespace DiceFormula

/-- The sum of `n` dice with faces from one to `sides`. -/
def rollTimes (sides : Int) : Nat → Roll Int
  | 0 => pure 0
  | n + 1 => do
    let face ← Roll.uniform 1 sides
    (face + ·) <$> rollTimes sides n

def Dice.roll (d : Dice) : Roll Int :=
  rollTimes d.sides d.count.toNat

namespace Formula

-- the zero that the sums of `Formula.average` begin with
attribute [local instance (high)] Zero.ofOfNat0

def roll (f : Formula) : Roll Int :=
  (fun totals => totals.sum + f.constants.sum) <$> f.dice.mapM Dice.roll

/-- What a mode makes of `f`; an average draws nothing. -/
def total (f : Formula) : Mode → Roll Int
  | .average => pure f.average
  | .simulate => f.roll

/-- `read` a formula and `report` the reading. -/
def parse (mode : Mode) (text : List Char) : Roll Formula := do
  Roll.tellAll (report mode text)
  Roll.ofExcept (read mode text)

end Formula

def evaluate (mode : Mode) (text : List Char) : Roll Int := do
  Roll.tell (.startedFormula text mode.name)
  let f ← Formula.parse mode text
  f.total mode

end DiceFormula
