import DiceFormula.Error
import DiceFormula.Text.Lexeme

/-!
# Discovery

A formula begins at the first die of a word, its count included, and runs to
the end of the word, whatever follows the die. Words are set apart by spaces
and line feeds; a word without a die holds no formula.
-/

namespace DiceFormula

/-- Whether a die begins here, with or without a count. -/
def opensDie : List Lexeme → Bool
  | .number _ :: .mark _ :: .number _ :: _ => true
  | .mark _ :: .number _ :: _ => true
  | _ => false

/-- The lexemes of `ls` before its first gap. -/
def beforeGap (ls : List Lexeme) : List Lexeme :=
  ls.takeWhile fun l => !l.isGap

/-- The formulas of a text; `inside` once the word in hand has begun its formula. -/
def formulasFrom (inside : Bool) : List Lexeme → List (List Char)
  | [] => []
  | l :: ls =>
    if l.isGap then formulasFrom false ls
    else if inside then formulasFrom true ls
    else if opensDie (l :: ls) then textOf (beforeGap (l :: ls)) :: formulasFrom true ls
    else formulasFrom false ls

def formulas (text : List Char) : List (List Char) :=
  formulasFrom false (lex text)

/-- The `formulas` of a text, which must have one. -/
def discover (text : List Char) : Except DiceError (List (List Char)) :=
  match formulas text with
  | [] => .error .noFormula
  | f :: fs => .ok (f :: fs)

theorem discover_eq_error_iff {text : List Char} {e : DiceError} :
    discover text = .error e ↔ formulas text = [] ∧ e = .noFormula := by
  unfold discover
  split <;> simp [*, eq_comm]

theorem discover_eq_ok_iff {text : List Char} {fs : List (List Char)} :
    discover text = .ok fs ↔ formulas text = fs ∧ fs ≠ [] := by
  unfold discover
  split
  · simp +contextual [*]
  · rename_i f gs h
    rw [h]
    constructor
    · rintro ⟨⟩
      exact ⟨rfl, List.cons_ne_nil f gs⟩
    · rintro ⟨rfl, _⟩
      rfl

/-- A gap clears `inside`: the next word starts afresh. -/
theorem formulasFrom_gap {l : Lexeme} (h : l.isGap = true) (inside : Bool) (ls : List Lexeme) :
    formulasFrom inside (l :: ls) = formulasFrom false ls := by
  simp [formulasFrom, h]

end DiceFormula
