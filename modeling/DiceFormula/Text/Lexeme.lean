import DiceFormula.Text.Digit

/-!
# Lexemes

What a text is made of, as far as dice are concerned: numbers (maximal runs of
digits), the letter that marks a die, the plus sign, the two gaps that end a
formula, and everything else, one character at a time. `lex` cuts a text from
its end, so that a digit joins the number it stands before; `textOf` puts the
pieces together again and loses nothing.
-/

namespace DiceFormula

inductive Lexeme where
  | number (digits : List Char)
  /-- The `letter` of a die, in either case. -/
  | mark (letter : Char)
  | plus
  | space
  | newline
  | other (c : Char)
  deriving DecidableEq, Repr

namespace Lexeme

def text : Lexeme → List Char
  | number digits => digits
  | mark letter => [letter]
  | plus => ['+']
  | space => [' ']
  | newline => ['\n']
  | other c => [c]

/-- Whether a formula ends before it. -/
def isGap : Lexeme → Bool
  | space | newline => true
  | _ => false

def ofSingle (c : Char) : Lexeme :=
  if c = 'd' ∨ c = 'D' then mark c
  else if c = '+' then plus
  else if c = ' ' then space
  else if c = '\n' then newline
  else other c

/-- Put the digit `c` before lexemes: it leads their first number, or is one of its own. -/
def pushDigit (c : Char) : List Lexeme → List Lexeme
  | number digits :: ls => number (c :: digits) :: ls
  | ls => number [c] :: ls

def push (c : Char) (ls : List Lexeme) : List Lexeme :=
  if isDigit c then pushDigit c ls else ofSingle c :: ls

end Lexeme

def lex (text : List Char) : List Lexeme :=
  text.foldr Lexeme.push []

/-- The text that `ls` were cut from. -/
def textOf (ls : List Lexeme) : List Char :=
  ls.flatMap Lexeme.text

@[simp] theorem lex_nil : lex [] = [] := rfl

theorem lex_cons (c : Char) (cs : List Char) : lex (c :: cs) = Lexeme.push c (lex cs) := rfl

@[simp] theorem textOf_nil : textOf [] = [] := rfl

@[simp] theorem textOf_cons (l : Lexeme) (ls : List Lexeme) :
    textOf (l :: ls) = l.text ++ textOf ls :=
  List.flatMap_cons

@[simp] theorem textOf_append (ls ms : List Lexeme) :
    textOf (ls ++ ms) = textOf ls ++ textOf ms :=
  List.flatMap_append

namespace Lexeme

theorem text_ofSingle (c : Char) : (ofSingle c).text = [c] := by
  unfold ofSingle
  split
  · rfl
  · split
    · simp [text, *]
    · split
      · simp [text, *]
      · split <;> simp [text, *]

theorem textOf_pushDigit (c : Char) (ls : List Lexeme) :
    textOf (pushDigit c ls) = c :: textOf ls := by
  unfold pushDigit
  split <;> simp [text]

theorem textOf_push (c : Char) (ls : List Lexeme) : textOf (push c ls) = c :: textOf ls := by
  unfold push
  split
  · exact textOf_pushDigit c ls
  · simp [text_ofSingle]

end Lexeme

theorem textOf_lex (cs : List Char) : textOf (lex cs) = cs := by
  induction cs with
  | nil => rfl
  | cons c cs ih => rw [lex_cons, Lexeme.textOf_push, ih]

end DiceFormula
