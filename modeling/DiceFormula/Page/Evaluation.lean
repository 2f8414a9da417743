import DiceFormula.Formula.Discovery
import DiceFormula.Page.Entry
import DiceFormula.Roll.Dice

/-!
# Pages

A page is a text with formulas. They are evaluated in order on one stream of
bytes; a formula that is refused gets an entry with its error and does not stop
the others. Only when every formula has its entry are the notices written.
-/

namespace DiceFormula

namespace Page

/-- The formulas of a text, reported; a text without one is refused. -/
def found (text : List Char) : Roll (List (List Char)) := do
  let fs ← Roll.ofExcept (discover text)
  Roll.tell (.foundFormulas fs.length)
  return fs

/-- The entry of a `formula` that has been evaluated. -/
def record (mode : Mode) (formula : List Char) : Except DiceError Int → Roll Entry
  | .ok total => pure ⟨formula, mode, some total, none⟩
  | .error error => do
    Roll.tell (.failedFormula formula error)
    return ⟨formula, mode, none, some error⟩

def entry (mode : Mode) (formula : List Char) : Roll Entry := do
  let outcome ← (evaluate mode formula).attempt
  record mode formula outcome

theorem run_entry_ok {mode : Mode} {formula : List Char} {total : Int}
    {bytes rest : List Byte} {log : List Event}
    (h : (evaluate mode formula).run bytes = ⟨.ok total, rest, log⟩) :
    (entry mode formula).run bytes = ⟨.ok ⟨formula, mode, some total, none⟩, rest, log⟩ := by
  rw [entry, Roll.run_bind_ok (Roll.run_attempt_ok h)]
  simp [record]

/-- An error ends the formula and not the page. -/
theorem run_entry_refused {mode : Mode} {formula : List Char} {e : DiceError}
    {bytes rest : List Byte} {log : List Event}
    (h : (evaluate mode formula).run bytes = ⟨.error (.refused e), rest, log⟩) :
    (entry mode formula).run bytes =
      ⟨.ok ⟨formula, mode, none, some e⟩, rest, log ++ [.failedFormula formula e]⟩ := by
  rw [entry, Roll.run_bind_ok (Roll.run_attempt_refused h)]
  simp [record, Except.map]

theorem run_entry_outOfBytes {mode : Mode} {formula : List Char}
    {bytes rest : List Byte} {log : List Event}
    (h : (evaluate mode formula).run bytes = ⟨.error .outOfBytes, rest, log⟩) :
    (entry mode formula).run bytes = ⟨.error .outOfBytes, rest, log⟩ := by
  rw [entry, Roll.run_bind_error (Roll.run_attempt_error h (by simp))]

def entries (mode : Mode) (text : List Char) : Roll (List Entry) := do
  let fs ← found text
  Roll.tell (.startedPage fs.length)
  fs.mapM (entry mode)

/-- The notices of a page, all of them or none. -/
def notices (mode : Mode) (text : List Char) : Roll (List String) := do
  let es ← entries mode text
  match es.mapM Entry.notice with
  | .ok lines => return lines
  | .error why => Roll.fail why

end Page

end DiceFormula
