import DiceFormula.Error
import DiceFormula.Event
import DiceFormula.Formula.Basic
import DiceFormula.Formula.Term
import DiceFormula.Text.Numeral

/-!
# Reading a formula

`Formula.read` takes the terms of a text for their values. The dice come
first: the first one that is out of bounds refuses the formula, and so does a
formula without dice. Then come the constants, of which only the length can be
wrong. `Formula.report` is what is to be said of a reading.
-/

namespace DiceFormula

namespace Term

/-- The number of dice, one for a bare die. -/
def readCount? (t : Term) : Option Nat :=
  match t.count with
  | none => some 1
  | some digits => Numeral.read? digits

/-- The dice that `t` stands for, or the first thing that is wrong with it. -/
def check (mode : Mode) (t : Term) : Except Reason Dice :=
  match t.readCount?, Numeral.read? t.sides with
  | some count, some sides =>
    if count = 0 then .error .noDie
    else if sides = 0 then .error .noSide
    else if mode = .simulate ∧ byteDomain < sides then .error .tooManySides
    else .ok ⟨count, sides⟩
  | _, _ => .error .tooLong

theorem bounds_of_check {mode : Mode} {t : Term} {d : Dice} (h : t.check mode = .ok d) :
    1 ≤ d.count ∧ 1 ≤ d.sides ∧ (mode = .simulate → d.sides ≤ byteDomain) := by
  unfold check at h
  split at h
  · split at h
    · cases h
    · split at h
      · cases h
      · split at h
        · cases h
        · rename_i hc hs hb
          cases h
          dsimp only
          refine ⟨by omega, by omega, fun hm => ?_⟩
          exact Int.ofNat_le.2 (Nat.le_of_not_lt fun hlt => hb ⟨hm, hlt⟩)
  · cases h

def read (mode : Mode) (t : Term) : Except DiceError Dice :=
  (t.check mode).mapError (.malformed t.text)

end Term

def readConstant (digits : List Char) : Except DiceError Int :=
  match Numeral.read? digits with
  | some n => .ok n
  | none => .error (.malformed digits .tooLong)

namespace Formula

def read (mode : Mode) (text : List Char) : Except DiceError Formula := do
  let ls := lex text
  let dice ← (mode.terms ls).mapM (Term.read mode)
  if dice.isEmpty then
    throw (.noDice text)
  let constants ← (constantTerms ls).mapM readConstant
  return ⟨dice, constants⟩

/-- The number of dice once they are read, if there are any, then the number of constants likewise.
-/
def report (mode : Mode) (text : List Char) : List Event :=
  let ls := lex text
  match (mode.terms ls).mapM (Term.read mode) with
  | .ok (d :: dice) =>
    .foundDice (d :: dice).length text ::
      match (constantTerms ls).mapM readConstant with
      | .ok (k :: constants) => [.foundAdditions (k :: constants).length text]
      | _ => []
  | _ => []

end Formula

end DiceFormula
