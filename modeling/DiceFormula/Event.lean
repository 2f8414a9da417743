import DiceFormula.Error

/-!
# Events

What the library reports while it works: an event has a topic, the part of the
work it belongs to, a level, and a message. Texts that may hold anything are
quoted in a message, except where a formula is first named.
-/

namespace DiceFormula

inductive Topic where
  | parsing
  | evaluation
  | drawing
  | serving
  deriving DecidableEq, Repr

inductive Level where
  | debug
  | info
  | warning
  deriving DecidableEq, Repr

def Topic.name : Topic → String
  | parsing => "parser"
  | evaluation => "dice"
  | drawing => "rng"
  | serving => "server"

def Level.name : Level → String
  | debug => "DEBUG"
  | info => "INFO"
  | warning => "WARNING"

inductive Event where
  | foundFormulas (count : Nat)
  | foundDice (count : Nat) (formula : List Char)
  | foundAdditions (count : Nat) (formula : List Char)
  /-- The `count` formulas of a text are about to be evaluated. -/
  | startedPage (count : Nat)
  | startedFormula (formula : List Char) (mode : String)
  | failedFormula (formula : List Char) (error : DiceError)
  /-- `byte` would have favoured the low end of a range of `span` values. -/
  | rejectedByte (byte span : Nat)
  | startedServer (average simulate : Bool)
  deriving DecidableEq, Repr

namespace Event

def topic : Event → Topic
  | foundFormulas _ | foundDice .. | foundAdditions .. => .parsing
  | startedPage _ | startedFormula .. | failedFormula .. => .evaluation
  | rejectedByte .. => .drawing
  | startedServer .. => .serving

def level : Event → Level
  | startedPage _ | startedServer .. => .info
  | failedFormula .. => .warning
  | _ => .debug

def flagText : Bool → String
  | true => "True"
  | false => "False"

def message : Event → String
  | foundFormulas count => "Found " ++ toString count ++ " formulas"
  | foundDice count formula =>
    "Found " ++ toString count ++ " dice in " ++ String.ofList (quoted formula)
  | foundAdditions count formula =>
    "Found " ++ toString count ++ " additions in " ++ String.ofList (quoted formula)
  | startedPage count => "Calculating for " ++ toString count ++ " formulas"
  | startedFormula formula mode =>
    "Calculating " ++ String.ofList formula ++ " (" ++ mode ++ ")"
  | failedFormula formula error =>
    "Could not evaluate " ++ String.ofList (quoted formula) ++ ": " ++ error.message
  | rejectedByte byte span =>
    "Rejected byte " ++ toString byte ++ " for span " ++ toString span
  | startedServer average simulate =>
    "Starting simple-dice-roller (average=" ++ flagText average
      ++ ", simulate=" ++ flagText simulate ++ ")"

end Event

end DiceFormula
