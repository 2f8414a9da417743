import DiceFormula.Page.Evaluation
import DiceFormula.Server.Settings

/-!
# Tools

The server offers a tool for each mode that its settings enable. A call names a
tool and gives a text; the answer is the notices of that page. A name that is
not offered draws nothing. A page that has no notices fails the call, for
whatever reason, the want of bytes included; the failure is the answer.
-/

namespace DiceFormula

def Mode.toolName : Mode → String
  | .average => "average_dice"
  | .simulate => "simulate_dice"

inductive ToolError where
  | unknown (tool : String)
  | failed (tool : String) (why : Failure)
  deriving DecidableEq, Repr

def ToolError.message : ToolError → String
  | unknown tool => "Unknown tool: " ++ tool
  | failed tool why => "Error executing tool " ++ tool ++ ": " ++ why.message

namespace Settings

/-- The enabled modes, in the order in which their tools are offered. -/
def tools (s : Settings) : List Mode :=
  (if s.averageEnabled then [.average] else []) ++ (if s.simulateEnabled then [.simulate] else [])

/-- The mode of the tool that is offered under `name`. -/
def tool? (s : Settings) (name : String) : Option Mode :=
  s.tools.find? fun mode => mode.toolName == name

end Settings

namespace Server

def call (s : Settings) (name : String) (text : List Char) :
    Roll (Except ToolError (List String)) :=
  match s.tool? name with
  | none => pure (.error (.unknown name))
  | some mode => (fun page => page.mapError (.failed name)) <$> (Page.notices mode text).settle

def start (s : Settings) : Roll Unit :=
  Roll.tell (.startedServer s.averageEnabled s.simulateEnabled)

end Server

end DiceFormula
