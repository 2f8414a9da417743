import DiceFormula.Text.Lexeme
import Mathlib.Data.List.TakeWhile

/-!
# Cutting a text

How `lex` cuts a text that is put together from parts: a character that is no
digit is a lexeme of its own wherever it stands, and a run of digits is one
number unless another digit follows. `cutInduction` goes through a text by
these two steps, `partInduction` by the parts between characters of a kind.
-/

namespace DiceFormula

/-- The letter of a die, in either case. -/
def isMark (c : Char) : Bool := c == 'd' || c == 'D'

/-- What sets words apart. -/
def isBlank (c : Char) : Bool := c == ' ' || c == '\n'

theorem beq_eq_false_of_not_mem {c : Char} {cs : List Char} (h : c ∉ cs) :
    ∀ d ∈ cs, (d == c) = false := by
  intro d hd
  refine beq_eq_false_iff_ne.2 ?_
  rintro rfl
  exact h hd

/-- `cs` does not begin with a digit. -/
def NoDigitAhead (cs : List Char) : Prop := ∀ c ∈ cs.head?, isDigit c = false

theorem noDigitAhead_nil : NoDigitAhead [] := by
  intro c hc
  cases hc

theorem noDigitAhead_cons {c : Char} (h : isDigit c = false) (cs : List Char) :
    NoDigitAhead (c :: cs) := by
  intro d hd
  cases hd
  exact h

theorem noDigitAhead_append {cs ds : List Char} (hcs : NoDigitAhead cs) (hds : NoDigitAhead ds) :
    NoDigitAhead (cs ++ ds) := by
  cases cs with
  | nil => exact hds
  | cons c cs => exact hcs

theorem noDigitAhead_dropWhile (cs : List Char) : NoDigitAhead (cs.dropWhile isDigit) := by
  intro c hc
  have := List.head?_dropWhile_not isDigit cs
  rw [Option.mem_def.1 hc] at this
  simpa using this

theorem takeWhile_digits {digits cs : List Char} (all : ∀ c ∈ digits, isDigit c = true)
    (h : NoDigitAhead cs) : (digits ++ cs).takeWhile isDigit = digits := by
  rw [List.takeWhile_append_of_pos all]
  cases cs with
  | nil => exact List.append_nil digits
  | cons c cs => rw [List.takeWhile_cons_of_neg (by rw [h c rfl]; decide), List.append_nil]

theorem dropWhile_digits {digits cs : List Char} (all : ∀ c ∈ digits, isDigit c = true)
    (h : NoDigitAhead cs) : (digits ++ cs).dropWhile isDigit = cs := by
  rw [List.dropWhile_append_of_pos all]
  cases cs with
  | nil => rfl
  | cons c cs => rw [List.dropWhile_cons_of_neg (by rw [h c rfl]; decide)]

theorem exists_digits_append (text : List Char) :
    ∃ digits cs, (∀ c ∈ digits, isDigit c = true) ∧ NoDigitAhead cs ∧ text = digits ++ cs :=
  ⟨text.takeWhile isDigit, text.dropWhile isDigit, fun _ hc => List.mem_takeWhile_imp hc,
    noDigitAhead_dropWhile text, List.takeWhile_append_dropWhile.symm⟩

theorem isDigit_of_isMark {c : Char} (h : isMark c = true) : isDigit c = false := by
  simp only [isMark, Bool.or_eq_true, beq_iff_eq] at h
  obtain rfl | rfl := h <;> decide

theorem isDigit_of_isBlank {c : Char} (h : isBlank c = true) : isDigit c = false := by
  simp only [isBlank, Bool.or_eq_true, beq_iff_eq] at h
  obtain rfl | rfl := h <;> decide

theorem isDigit_plus : isDigit '+' = false := by decide

theorem isMark_of_isBlank {c : Char} (h : isBlank c = true) : isMark c = false := by
  simp only [isBlank, Bool.or_eq_true, beq_iff_eq] at h
  obtain rfl | rfl := h <;> decide

theorem isMark_of_isDigit {c : Char} (h : isDigit c = true) : isMark c = false := by
  cases hm : isMark c with
  | false => rfl
  | true => rw [isDigit_of_isMark hm] at h; cases h

namespace Lexeme

theorem ofSingle_of_isMark {c : Char} (h : isMark c = true) : ofSingle c = mark c := by
  simp only [isMark, Bool.or_eq_true, beq_iff_eq] at h
  exact if_pos h

theorem isMark_of_ofSingle {c letter : Char} (h : ofSingle c = mark letter) :
    isMark c = true ∧ letter = c := by
  unfold ofSingle at h
  split at h
  · rename_i hc
    cases h
    exact ⟨by simpa [isMark] using hc, rfl⟩
  · split at h
    · cases h
    · split at h
      · cases h
      · split at h <;> cases h

theorem ofSingle_ne_number (c : Char) (digits : List Char) : ofSingle c ≠ number digits := by
  unfold ofSingle
  repeat' split
  all_goals exact fun h => by cases h

theorem isGap_ofSingle (c : Char) : (ofSingle c).isGap = isBlank c := by
  by_cases hm : isMark c = true
  · rw [ofSingle_of_isMark hm]
    simp only [isMark, Bool.or_eq_true, beq_iff_eq] at hm
    obtain rfl | rfl := hm <;> rfl
  · simp only [isMark, Bool.or_eq_true, beq_iff_eq] at hm
    unfold ofSingle
    rw [if_neg hm]
    by_cases hp : c = '+'
    · subst hp; rfl
    · by_cases hs : c = ' '
      · subst hs; rfl
      · by_cases hn : c = '\n'
        · subst hn; rfl
        · simp [hp, hs, hn, isGap, isBlank]

end Lexeme

theorem lex_single {c : Char} (h : isDigit c = false) (cs : List Char) :
    lex (c :: cs) = Lexeme.ofSingle c :: lex cs := by
  rw [lex_cons, Lexeme.push, h]
  rfl

theorem lex_singles {cs : List Char} (h : ∀ c ∈ cs, isDigit c = false) (ds : List Char) :
    lex (cs ++ ds) = cs.map Lexeme.ofSingle ++ lex ds := by
  induction cs with
  | nil => rfl
  | cons c cs ih =>
    obtain ⟨hc, hcs⟩ := List.forall_mem_cons.1 h
    rw [List.cons_append, lex_single hc, ih hcs]
    rfl

theorem lex_ne_nil (c : Char) (cs : List Char) : lex (c :: cs) ≠ [] := by
  intro h
  have := textOf_lex (c :: cs)
  rw [h] at this
  cases this

theorem lex_digit {c : Char} (h : isDigit c = true) (cs : List Char) :
    ∃ digits ls, lex (c :: cs) = .number (c :: digits) :: ls := by
  rw [lex_cons, Lexeme.push, if_pos h]
  unfold Lexeme.pushDigit
  split
  · exact ⟨_, _, rfl⟩
  · exact ⟨_, _, rfl⟩

theorem lex_ne_number {cs : List Char} (h : NoDigitAhead cs) (digits : List Char)
    (ls : List Lexeme) : lex cs ≠ .number digits :: ls := by
  cases cs with
  | nil => exact fun he => by cases he
  | cons c cs =>
    rw [lex_single (h c rfl)]
    exact fun he => Lexeme.ofSingle_ne_number c digits (List.cons.inj he).1

theorem lex_number {digits : List Char} (ne : digits ≠ []) (all : ∀ c ∈ digits, isDigit c = true)
    {cs : List Char} (h : NoDigitAhead cs) : lex (digits ++ cs) = .number digits :: lex cs := by
  induction digits with
  | nil => exact absurd rfl ne
  | cons c digits ih =>
    rw [List.cons_append, lex_cons, Lexeme.push, if_pos (all c List.mem_cons_self)]
    cases digits with
    | nil =>
      unfold Lexeme.pushDigit
      split
      · rename_i hl
        exact absurd hl (lex_ne_number h _ _)
      · rfl
    | cons d digits =>
      rw [ih (List.cons_ne_nil d digits) fun x hx => all x (List.mem_cons_of_mem c hx)]
      rfl

/-- `c` parts what stands before it from what stands after. -/
theorem lex_append_single (cs : List Char) {c : Char} (h : isDigit c = false) (ds : List Char) :
    lex (cs ++ c :: ds) = lex cs ++ Lexeme.ofSingle c :: lex ds := by
  induction cs with
  | nil => exact lex_single h ds
  | cons x cs ih =>
    rw [List.cons_append, lex_cons, lex_cons, ih]
    unfold Lexeme.push
    split
    · cases hl : lex cs with
      | nil =>
        rw [List.nil_append]
        unfold Lexeme.pushDigit
        split
        · rename_i he
          exact absurd (List.cons.inj he).1 (Lexeme.ofSingle_ne_number c _)
        · rfl
      | cons l ls => cases l <;> rfl
    · rfl

/-- Induction on a text by what it begins with: a character that is no digit, or a run of digits
that no digit follows. -/
@[elab_as_elim] theorem cutInduction {motive : List Char → Prop} (text : List Char)
    (nil : motive [])
    (single : ∀ c cs, isDigit c = false → motive cs → motive (c :: cs))
    (number : ∀ digits cs, digits ≠ [] → (∀ c ∈ digits, isDigit c = true) → NoDigitAhead cs →
      motive cs → motive (digits ++ cs)) : motive text := by
  induction hn : text.length using Nat.strongRecOn generalizing text with
  | _ n ih =>
    subst hn
    cases text with
    | nil => exact nil
    | cons c cs =>
      by_cases hc : isDigit c = true
      · have hsplit : (c :: cs).takeWhile isDigit ++ (c :: cs).dropWhile isDigit = c :: cs :=
          List.takeWhile_append_dropWhile
        have hlt : ((c :: cs).dropWhile isDigit).length < (c :: cs).length := by
          rw [List.dropWhile_cons_of_pos hc]
          exact Nat.lt_succ_of_le (List.dropWhile_sublist isDigit).length_le
        rw [← hsplit]
        refine number _ _ ?_ (fun d hd => List.mem_takeWhile_imp hd)
          (noDigitAhead_dropWhile _) (ih _ hlt _ rfl)
        rw [List.takeWhile_cons_of_pos hc]
        exact List.cons_ne_nil _ _
      · exact single c cs (eq_false_of_ne_true hc) (ih _ (by simp) _ rfl)

/-- `xs` has no member that is a `stop`, or is split by the first one. -/
theorem split_cases {α : Type} (stop : α → Bool) (xs : List α) :
    (∀ x ∈ xs, stop x = false) ∨
      ∃ before x after, xs = before ++ x :: after ∧ (∀ y ∈ before, stop y = false) ∧
        stop x = true := by
  cases h : xs.find? stop with
  | none => exact .inl fun x hx => eq_false_of_ne_true (List.find?_eq_none.1 h x hx)
  | some x =>
    obtain ⟨hx, before, after, rfl, hbefore⟩ := List.find?_eq_some_iff_append.1 h
    exact .inr ⟨before, x, after, rfl, fun y hy => by simpa using hbefore y hy, hx⟩

/-- Induction on a text by its parts, each with the `stop` character behind it. -/
theorem partInduction {motive : List Char → Prop} (stop : Char → Bool) (text : List Char)
    (part : ∀ w, (∀ c ∈ w, stop c = false) → motive w)
    (more : ∀ w c rest, (∀ d ∈ w, stop d = false) → stop c = true → motive rest →
      motive (w ++ c :: rest)) : motive text := by
  induction hn : text.length using Nat.strongRecOn generalizing text with
  | _ n ih =>
    rcases split_cases stop text with h | ⟨w, c, rest, rfl, hw, hc⟩
    · exact part text h
    · refine more w c rest hw hc (ih rest.length ?_ rest rfl)
      rw [← hn, List.length_append, List.length_cons]
      omega

end DiceFormula
