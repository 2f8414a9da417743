/-!
# Settings

Which tools the server offers and how much it logs. A setting is given by an
argument, under the name of its field, or by a variable of the environment, with
`variablePrefix` before that name, in letters of either case. Of names that
differ in case only, the first argument counts and the last variable. An
argument hides the variable, which is then not even looked at. A switch is read
from the words for yes and no, in letters of either case, or from the numbers
one and zero; every setting that cannot be read is reported.
-/

namespace DiceFormula

structure Settings where
  averageEnabled : Bool := true
  simulateEnabled : Bool := false
  logLevel : String := "INFO"
  deriving DecidableEq, Repr

namespace Settings

/-- A setting as it is given. -/
inductive Given where
  | switch (on : Bool)
  | word (text : String)
  | number (n : Int)
  /-- Nothing, a fraction, a list: what no setting is read from. -/
  | other
  deriving DecidableEq, Repr

inductive Fault where
  /-- It could be a switch and is neither on nor off. -/
  | unclear
  | notASwitch
  | notAWord
  deriving DecidableEq, Repr

def Fault.code : Fault → String
  | unclear => "bool_parsing"
  | notASwitch => "bool_type"
  | notAWord => "string_type"

structure Invalid where
  faults : List (String × Fault)
  deriving DecidableEq, Repr

def Invalid.message (e : Invalid) : String :=
  "; ".intercalate (e.faults.map fun f => f.1 ++ ": " ++ f.2.code)

def variablePrefix : String := "simple_dice_roller_"

def averageField : String := "average_tool_enabled"

def simulateField : String := "simulate_tool_enabled"

def logField : String := "log_level"

/-- `s` and `t` are equal but for the case of basic letters. -/
def sameLetters (s t : String) : Bool :=
  s.toList.map Char.toLower == t.toList.map Char.toLower

def yesWords : List String := ["1", "true", "t", "yes", "y", "on"]

def noWords : List String := ["0", "false", "f", "no", "n", "off"]

/-- The numbers that are looked at as a switch: those of a signed word of 64 bits. -/
def FitsWord (n : Int) : Prop := -Int.pow 2 63 ≤ n ∧ n < Int.pow 2 63

instance (n : Int) : Decidable (FitsWord n) := inferInstanceAs (Decidable (_ ∧ _))

def readSwitch : Given → Except Fault Bool
  | .switch on => .ok on
  | .word text =>
    if yesWords.any (sameLetters text) then .ok true
    else if noWords.any (sameLetters text) then .ok false
    else .error .unclear
  | .number n =>
    if n = 1 then .ok true
    else if n = 0 then .ok false
    else if FitsWord n then .error .unclear
    else .error .notASwitch
  | .other => .error .notASwitch

def readWord : Given → Except Fault String
  | .word text => .ok text
  | _ => .error .notAWord

/-- The first value under `name`, up to case. -/
def firstUnder {α : Type} (name : String) (pairs : List (String × α)) : Option α :=
  (pairs.find? fun p => sameLetters name p.1).map (·.2)

/-- How `field` is given: by an argument, or else by a variable. -/
def lookUp (environment : List (String × String)) (arguments : List (String × Given))
    (field : String) : Option Given :=
  firstUnder field arguments
    <|> (firstUnder (variablePrefix ++ field) environment.reverse).map .word

/-- A field that is not given keeps its `default`. -/
def readField {α : Type} (read : Given → Except Fault α) (default : α) :
    Option Given → Except Fault α
  | none => .ok default
  | some given => read given

def faultOf {α : Type} (field : String) : Except Fault α → List (String × Fault)
  | .ok _ => []
  | .error fault => [(field, fault)]

def read (environment : List (String × String)) (arguments : List (String × Given)) :
    Except Invalid Settings :=
  let given := lookUp environment arguments
  let usual : Settings := {}
  let average := readField readSwitch usual.averageEnabled (given averageField)
  let simulate := readField readSwitch usual.simulateEnabled (given simulateField)
  let logLevel := readField readWord usual.logLevel (given logField)
  match average, simulate, logLevel with
  | .ok average, .ok simulate, .ok logLevel => .ok ⟨average, simulate, logLevel⟩
  | average, simulate, logLevel =>
    .error ⟨faultOf averageField average ++ faultOf simulateField simulate
      ++ faultOf logField logLevel⟩

end Settings

end DiceFormula
