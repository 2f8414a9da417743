import DiceFormula.Text.Printable

/-!
# Quoted texts

A quoted text stands between single quotes, or between double quotes when it
has a single quote and no double one. Inside, the enclosing quote and the
backslash are led by a backslash, and a line feed, carriage return or tab is
`\n`, `\r` or `\t`. Any other character that does not print is given by its
code point in lower-case hexadecimal, in two, four or eight places after `\x`,
`\u` or `\U`, whichever is the first to hold it.
-/

namespace DiceFormula

/-- The quote that encloses `text`. -/
def enclosing (text : List Char) : Char :=
  if '\'' ∈ text ∧ '"' ∉ text then '"' else '\''

/-- The hexadecimal figures of `n`, padded to `width` places. -/
def hexadecimal (width n : Nat) : List Char :=
  let figures := Nat.toDigits 16 n
  List.replicate (width - figures.length) '0' ++ figures

def byCodePoint (c : Char) : List Char :=
  if c.toNat < 0x100 then '\\' :: 'x' :: hexadecimal 2 c.toNat
  else if c.toNat < 0x10000 then '\\' :: 'u' :: hexadecimal 4 c.toNat
  else '\\' :: 'U' :: hexadecimal 8 c.toNat

/-- `c` as it stands between two `mark`s. -/
def escaped (mark c : Char) : List Char :=
  if c = mark ∨ c = '\\' then ['\\', c]
  else if c = '\n' then ['\\', 'n']
  else if c = '\r' then ['\\', 'r']
  else if c = '\t' then ['\\', 't']
  else if isPrintable c then [c]
  else byCodePoint c

def quoted (text : List Char) : List Char :=
  enclosing text :: text.flatMap (escaped (enclosing text)) ++ [enclosing text]

theorem escaped_of_plain {mark c : Char} (hm : c ≠ mark) (hb : c ≠ '\\')
    (hp : isPrintable c = true) : escaped mark c = [c] := by
  have hn : c ≠ '\n' := fun h => absurd hp (by subst h; decide +kernel)
  have hr : c ≠ '\r' := fun h => absurd hp (by subst h; decide +kernel)
  have ht : c ≠ '\t' := fun h => absurd hp (by subst h; decide +kernel)
  simp [escaped, *]

/-- Printable characters other than quotes and backslashes stand as they are. -/
theorem quoted_of_plain {text : List Char}
    (h : ∀ c ∈ text, c ≠ '\'' ∧ c ≠ '\\' ∧ isPrintable c = true) :
    quoted text = '\'' :: text ++ ['\''] := by
  have he : enclosing text = '\'' := if_neg fun hq => (h _ hq.1).1 rfl
  have hf : text.flatMap (escaped '\'') = text := by
    induction text with
    | nil => rfl
    | cons c cs ih =>
      obtain ⟨hm, hb, hp⟩ := h c List.mem_cons_self
      have hcs : ∀ d ∈ cs, d ≠ '\'' ∧ d ≠ '\\' ∧ isPrintable d = true :=
        fun d hd => h d (List.mem_cons_of_mem c hd)
      rw [List.flatMap_cons, escaped_of_plain hm hb hp,
        ih hcs (if_neg fun hq => (hcs _ hq.1).1 rfl)]
      rfl
  rw [quoted, he, hf]

end DiceFormula
