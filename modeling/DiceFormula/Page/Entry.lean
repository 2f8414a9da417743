import DiceFormula.Error
import DiceFormula.Mode
import DiceFormula.Text.Numeral

/-!
# Entries

An entry is what became of one formula of a page: its total, or the error that
it met. The notice of an entry is the line that the user reads. An error goes
before a total; a total of more digits than a numeral may have has no notice.
-/

namespace DiceFormula

structure Entry where
  formula : List Char
  mode : Mode
  total : Option Int
  error : Option DiceError
  deriving DecidableEq, Repr

namespace Entry

def ok (e : Entry) : Bool := e.error.isNone

/-- The first words of a notice with a total. -/
def heading : Mode → String
  | .average => "Average of "
  | .simulate => "Simulated "

def notice (e : Entry) : Except Failure String :=
  let formula := String.ofList e.formula
  match e.error, e.total with
  | some error, _ => .ok ("Could not evaluate " ++ formula ++ ": " ++ error.message)
  | none, none => .ok (heading e.mode ++ formula ++ ": None")
  | none, some total =>
    match Numeral.write? total with
    | some digits => .ok (heading e.mode ++ formula ++ ": " ++ digits)
    | none => .error .unwritable

/-- Only a total can keep a notice from being written. -/
theorem notice_eq_error_iff {e : Entry} {why : Failure} :
    e.notice = .error why ↔
      why = .unwritable ∧ e.error = none ∧ ∃ n, e.total = some n ∧ ¬ Numeral.Writable n := by
  rcases e with ⟨formula, mode, total, error⟩
  cases error with
  | some error => simp [notice]
  | none =>
    cases total with
    | none => simp [notice]
    | some n =>
      by_cases h : Numeral.Writable n
      · simp [notice, Numeral.write?, h]
      · simp [notice, Numeral.write?, h, eq_comm]

end Entry

end DiceFormula
