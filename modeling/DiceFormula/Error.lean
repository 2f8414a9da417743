import DiceFormula.Text.Numeral
import DiceFormula.Text.Quoted

/-!
# Errors

`DiceError` is what is wrong with a text, a formula or a range; its message is
for the user and begins with a stable code. A run of the dice can also fail
for reasons that are not the formula's (`Failure`): no byte is left to draw, a
number has too many digits to be written, or a word names no mode.
-/

namespace DiceFormula

/-- The most sides that one byte can decide between. -/
def byteDomain : Nat := 256

/-- What is wrong with a term. -/
inductive Reason where
  | tooLong
  | noDie
  | noSide
  | tooManySides
  /-- A reason in the caller's own words. -/
  | worded (text : String)
  deriving DecidableEq, Repr

def Reason.text : Reason → String
  | tooLong => "has a number that is too long"
  | noDie => "must roll at least one die"
  | noSide => "must have at least one side"
  | tooManySides => "has more than " ++ toString byteDomain ++ " sides and cannot be simulated"
  | worded text => text

inductive DiceError where
  | noFormula
  | noDice (formula : List Char)
  | malformed (term : List Char) (reason : Reason)
  | invalidRange (minimum maximum : Int)
  /-- An error in the caller's own words. -/
  | worded (text : String)
  deriving DecidableEq, Repr

namespace DiceError

def message : DiceError → String
  | noFormula => "[NO_FORMULA_FOUND] No dice found in text."
  | noDice formula =>
    "[NO_DICE_IN_FORMULA] No dice term found in '" ++ String.ofList formula
      ++ "'. Example: '2d6+3' or 'd20'."
  | malformed term reason =>
    "[MALFORMED_TERM] Term '" ++ String.ofList term ++ "' " ++ reason.text
      ++ ". Example: '2d6'."
  | invalidRange minimum maximum =>
    "[INVALID_RANGE] Cannot draw from [" ++ toString minimum ++ ", " ++ toString maximum
      ++ "]; the range must hold 1 to " ++ toString byteDomain ++ " values."
  | worded text => text

/-- The error of a caller's `texts`; several are listed, each of them `quoted`. -/
def ofWords : List String → DiceError
  | [] => worded ""
  | [text] => worded text
  | texts =>
    worded ("(" ++ ", ".intercalate (texts.map fun text => String.ofList (quoted text.toList))
      ++ ")")

def formula? : DiceError → Option (List Char)
  | noDice formula => some formula
  | _ => none

def term? : DiceError → Option (List Char)
  | malformed term _ => some term
  | _ => none

end DiceError

/-- Why a run has no result. -/
inductive Failure where
  | refused (error : DiceError)
  | outOfBytes
  | unwritable
  | unknownMode (word : String)
  deriving DecidableEq, Repr

def Failure.message : Failure → String
  | refused error => error.message
  | outOfBytes => "no bytes left"
  | unwritable =>
    "Exceeds the limit (" ++ toString Numeral.limit
      ++ " digits) for integer string conversion; "
      ++ "use sys.set_int_max_str_digits() to increase the limit"
  | unknownMode word => String.ofList (quoted word.toList)

end DiceFormula
