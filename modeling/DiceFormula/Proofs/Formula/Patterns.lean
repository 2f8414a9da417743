import DiceFormula.Proofs.Formula.Chains
import DiceFormula.Proofs.Formula.Words
import DiceFormula.Proofs.Text.Pattern

/-!
# The patterns of the notation

Formulas, dice and constants are searches for three patterns. The scans of
lexemes find what these searches find: the formulas of a text
(`finds_formulaPattern`), the dice that a mode takes (`finds_dicePattern`), and
the constants (`finds_constantPattern`).
-/

namespace DiceFormula

/-- A die letter behind at least `least` digits, and `more` behind it. -/
def diePattern (least : Nat) (more : Pattern) : Pattern :=
  .seq (.greedy least isDigit) (.seq (.one isMark) more)

/-- A space next, or the end of the line. -/
def formulaEnd : Pattern :=
  .ahead (.either (.one (· == ' ')) (.either (.one (· == '\n')) .final))

/-- A die, and all that follows it up to `formulaEnd`. -/
def formulaPattern : Pattern :=
  diePattern 0 (.seq (.greedy 1 isDigit) (.seq (.sparing (· != '\n')) formulaEnd))

/-- How many digits the count of a die must have. -/
def Mode.leastCount : Mode → Nat
  | average => 0
  | simulate => 1

def Mode.dicePattern (mode : Mode) : Pattern :=
  diePattern mode.leastCount (.greedy 1 isDigit)

/-- A plus sign next, or the end of the text. -/
def constantEnd : Pattern := .ahead (.either (.one (· == '+')) .final)

/-- A number behind a plus sign, up to `constantEnd`. -/
def constantPattern : Pattern :=
  .seq (.behind (· == '+')) (.seq (.greedy 1 isDigit) constantEnd)

/-- What the parts of `diePattern` take of a die. -/
def Term.pieces (t : Term) : List (List Char) := [t.count.getD [], [t.letter], t.sides]

open Pattern

/-! ## A die -/

section

variable {least : Nat} {more : Pattern} {prev : Option Char} {digits cs : List Char}
  (all : ∀ c ∈ digits, isDigit c = true) (ahead : NoDigitAhead cs)

include all ahead

/-- No part of a run of digits can be given back, since a die letter is no digit. -/
theorem fits_diePattern :
    (diePattern least more).fits prev (digits ++ cs) =
      if least ≤ digits.length then
        ((seq (one isMark) more).fits (digits.getLast?.or prev) cs).map (Fit.append ⟨[digits], cs⟩)
      else [] := by
  have hrefuse : ∀ prev c cs, isDigit c = true →
      (seq (one isMark) more).fits prev (c :: cs) = [] := by
    intro prev c cs hc
    simp [fits, isMark_of_isDigit hc]
  unfold diePattern
  rw [fits_seq_greedy least hrefuse, takeWhile_digits all ahead,
    dropWhile_digits all ahead]

theorem first_diePattern_of_not (hmore : ∀ prev cs, NoDigitAhead cs → more.fits prev cs = [])
    (h : leadsDie cs = false) : (diePattern least more).first prev (digits ++ cs) = none := by
  have hmark : ∀ prev, (seq (one isMark) more).fits prev cs = [] := by
    intro prev
    cases cs with
    | nil => rfl
    | cons c cs =>
      cases hc : isMark c with
      | false => simp [fits, hc]
      | true => simp [fits, hc, hmore _ cs (noDigitAhead_of_not_leadsDie hc h)]
  rw [first, fits_diePattern all ahead, hmark]
  split <;> rfl

end

theorem first_diePattern {least : Nat} {more : Pattern} {prev : Option Char}
    {digits rest : List Char} {letter : Char} {m : Fit}
    (all : ∀ c ∈ digits, isDigit c = true) (enough : least ≤ digits.length)
    (hletter : isMark letter = true) (hm : more.first (some letter) rest = some m) :
    (diePattern least more).first prev (digits ++ letter :: rest) =
      some ⟨digits :: [letter] :: m.pieces, m.rest⟩ := by
  have hahead : NoDigitAhead (letter :: rest) :=
    noDigitAhead_cons (isDigit_of_isMark hletter) rest
  have hmark : ∀ prev, (seq (one isMark) more).first prev (letter :: rest) =
      some ⟨[letter] :: m.pieces, m.rest⟩ := by
    intro prev
    rw [first_seq, fits, if_pos hletter, List.findSome?_singleton]
    show (more.first (some letter) rest).map _ = _
    rw [hm]
    rfl
  rw [first, fits_diePattern all hahead, if_pos enough, List.head?_map]
  show ((seq (one isMark) more).first _ _).map _ = _
  rw [hmark]
  rfl

theorem fits_sides_of_noDigitAhead {prev : Option Char} {cs : List Char} (h : NoDigitAhead cs) :
    (greedy 1 isDigit).fits prev cs = [] := by
  have htake : ([] ++ cs).takeWhile isDigit = [] := takeWhile_digits (List.forall_mem_nil _) h
  exact fits_greedy_of_nil Nat.one_pos htake

/-! ## Formulas -/

theorem first_formulaEnd (prev : Option Char) (cs : List Char) :
    formulaEnd.first prev cs = if cs.head?.all isBlank then some ⟨[], cs⟩ else none := by
  cases cs with
  | nil => rfl
  | cons c cs =>
    by_cases hs : c = ' '
    · subst hs; rfl
    · by_cases hn : c = '\n'
      · subst hn; rfl
      · simp [first, fits, formulaEnd, isBlank, hs, hn]

theorem first_formulaPattern_of_not {digits cs : List Char} (all : ∀ c ∈ digits, isDigit c = true)
    (ahead : NoDigitAhead cs) (h : leadsDie cs = false) (prev : Option Char) :
    formulaPattern.first prev (digits ++ cs) = none := by
  refine first_diePattern_of_not all ahead (fun prev cs hcs => ?_) h
  exact fits_seq_of_nil (fits_sides_of_noDigitAhead hcs)

/-- Nothing but a blank comes first. -/
def BlankAhead (cs : List Char) : Prop := ∀ c ∈ cs.head?, isBlank c = true

section

variable {rest : List Char} (blank : BlankAhead rest)

include blank

theorem BlankAhead.noDigitAhead : NoDigitAhead rest :=
  fun c hc => isDigit_of_isBlank (blank c hc)

theorem BlankAhead.leadsDie_eq_false : leadsDie rest = false := by
  cases rest with
  | nil => rfl
  | cons b rest => exact leadsDie_of_not_isMark (isMark_of_isBlank (blank b rfl)) rest

theorem exists_first_formulaPattern {digits cs : List Char} (all : ∀ c ∈ digits, isDigit c = true)
    (word : ∀ c ∈ cs, isBlank c = false) (h : leadsDie cs = true) (prev : Option Char) :
    ∃ m, formulaPattern.first prev (digits ++ cs ++ rest) = some m ∧
      m.text = digits ++ cs ∧ m.rest = rest := by
  obtain ⟨letter, sides, tail, rfl, hletter, hne, hsides, htail⟩ := exists_of_leadsDie h
  have hkeep : ∀ c ∈ tail, (!isBlank c) = true := by
    intro c hc
    rw [word c (List.mem_cons_of_mem _ (List.mem_append_right sides hc))]
    rfl
  have hstop : rest.takeWhile (fun c => !isBlank c) = [] ∧
      rest.dropWhile (fun c => !isBlank c) = rest := by
    cases rest with
    | nil => exact ⟨rfl, rfl⟩
    | cons b rest =>
      have hb : ¬ (!isBlank b) = true := by rw [blank b rfl]; decide
      exact ⟨List.takeWhile_cons_of_neg hb, List.dropWhile_cons_of_neg hb⟩
  have hend : ∀ prev, (seq (sparing (· != '\n')) formulaEnd).first prev (tail ++ rest) =
      some ⟨[tail], rest⟩ := by
    intro prev
    rw [first_seq_sparing (fun c hc => ?_) first_formulaEnd, List.takeWhile_append_of_pos hkeep,
      List.dropWhile_append_of_pos hkeep, hstop.1, hstop.2, List.append_nil]
    cases hn : c == '\n' with
    | true => rw [isBlank, hn, Bool.or_true] at hc; cases hc
    | false => rw [bne, hn]; rfl
  have hmore : (seq (greedy 1 isDigit) (seq (sparing (· != '\n')) formulaEnd)).first (some letter)
      (sides ++ (tail ++ rest)) = some ⟨[sides, tail], rest⟩ := by
    have htake := takeWhile_digits hsides (noDigitAhead_append htail blank.noDigitAhead)
    have hdrop := dropWhile_digits hsides (noDigitAhead_append htail blank.noDigitAhead)
    have henough : 1 ≤ ((sides ++ (tail ++ rest)).takeWhile isDigit).length := by
      rw [htake]
      exact List.length_pos_of_ne_nil hne
    rw [first_seq_greedy henough (by rw [hdrop]; exact hend _), htake]
  refine ⟨⟨digits :: [letter] :: [sides, tail], rest⟩, ?_, ?_, rfl⟩
  · have hwhole : digits ++ letter :: (sides ++ tail) ++ rest =
        digits ++ letter :: (sides ++ (tail ++ rest)) := by simp
    rw [hwhole]
    exact first_diePattern all (Nat.zero_le _) hletter hmore
  · simp [Fit.text]

/-- In a word `w` the search finds its `wordFormula` or nothing, and goes on behind the word. -/
theorem findsFrom_word {found : List (List Char)}
    (behind : ∀ prev, (formulaPattern.findsFrom 0 prev rest).map Fit.text = found)
    {w : List Char} (hw : ∀ c ∈ w, isBlank c = false) (prev : Option Char) :
    (formulaPattern.findsFrom 0 prev (w ++ rest)).map Fit.text =
      (wordFormula w).toList ++ found := by
  have hfound : ∀ digits cs prev, (∀ c ∈ digits, isDigit c = true) →
      (∀ c ∈ cs, isBlank c = false) → leadsDie cs = true →
      (formulaPattern.findsFrom 0 prev (digits ++ cs ++ rest)).map Fit.text =
        (digits ++ cs) :: found := by
    intro digits cs prev all hcs hdie
    obtain ⟨m, hm, htext, hrest⟩ := exists_first_formulaPattern blank all hcs hdie prev
    have hne : m.text ≠ [] := by
      rw [htext]
      intro hnil
      rw [(List.append_eq_nil_iff.1 hnil).2] at hdie
      cases hdie
    rw [findsFrom_of_some hm hne (by rw [htext, hrest]), List.map_cons, htext, hrest, behind]
  induction w using cutInduction generalizing prev with
  | nil => exact behind prev
  | single c cs hc ih =>
    obtain ⟨hcb, hcs⟩ := List.forall_mem_cons.1 hw
    rw [wordFormula_single hc]
    cases hdie : leadsDie (c :: cs) with
    | true => exact hfound [] (c :: cs) prev (List.forall_mem_nil _) hw hdie
    | false =>
      have hnone : formulaPattern.first prev ([] ++ c :: (cs ++ rest)) = none :=
        first_formulaPattern_of_not (List.forall_mem_nil _) (noDigitAhead_cons hc _)
          ((leadsDie_append blank.noDigitAhead blank.leadsDie_eq_false (c :: cs)).trans hdie) prev
      rw [List.cons_append, findsFrom_of_none hnone]
      exact ih hcs _
  | number digits cs ne all hahead ih =>
    have hcs : ∀ c ∈ cs, isBlank c = false := fun c hc => hw c (List.mem_append_right digits hc)
    rw [wordFormula_number all hahead]
    cases hdie : leadsDie cs with
    | true => exact hfound digits cs prev all hcs hdie
    | false =>
      rw [List.append_assoc, findsFrom_pass]
      · exact ih hcs _
      · rintro u c v rfl
        exact first_formulaPattern_of_not (fun d hd => all d (List.mem_append_right u hd))
          (noDigitAhead_append hahead blank.noDigitAhead)
          ((leadsDie_append blank.noDigitAhead blank.leadsDie_eq_false cs).trans hdie) _

end

theorem finds_formulaPattern (text : List Char) :
    (formulaPattern.finds text).map Fit.text = formulas text := by
  have hfrom : ∀ prev, (formulaPattern.findsFrom 0 prev text).map Fit.text = formulas text := by
    rw [formulas_eq_words]
    induction text using wordInduction with
    | word w hw =>
      intro prev
      have hnil : BlankAhead [] := fun c hc => by cases hc
      have h : (formulaPattern.findsFrom 0 prev (w ++ [])).map Fit.text =
          (wordFormula w).toList ++ [] := findsFrom_word hnil (fun _ => rfl) hw prev
      rw [List.append_nil] at h
      rw [h, filterMap_words_of_no_blank hw, List.append_nil]
    | more w c rest hw hc ih =>
      intro prev
      have hblank : BlankAhead (c :: rest) := fun d hd => by cases hd; exact hc
      have hgap : ∀ prev, (formulaPattern.findsFrom 0 prev (c :: rest)).map Fit.text =
          (words rest).filterMap wordFormula := by
        intro prev
        have hahead := noDigitAhead_cons (isDigit_of_isBlank hc) rest
        have hnone := first_formulaPattern_of_not (List.forall_mem_nil _) hahead
          (leadsDie_of_not_isMark (isMark_of_isBlank hc) rest) prev
        rw [List.nil_append] at hnone
        rw [findsFrom_of_none hnone, ih]
      rw [findsFrom_word hblank hgap hw, words_append_blank w hc, List.filterMap_append,
        filterMap_words_of_no_blank hw]
  exact hfrom none

/-! ## Dice -/

theorem loose_lex {cs : List Char} (ahead : NoDigitAhead cs) (h : leadsDie cs = false) :
    Loose (lex cs) := by
  intro letter sides rest hl
  cases cs with
  | nil => cases hl
  | cons c cs =>
    rw [← opensDie_single (ahead c rfl) cs, hl] at h
    cases h

theorem Mode.terms_single (mode : Mode) {c : Char} {cs : List Char} (hc : isDigit c = false)
    (h : leadsDie (c :: cs) = false) : mode.terms (lex (c :: cs)) = mode.terms (lex cs) := by
  rw [lex_single hc]
  cases mode with
  | simulate => exact countedTerms_singles [c] (lex cs)
  | average =>
    show diceTerms (Lexeme.ofSingle c :: lex cs) = diceTerms (lex cs)
    cases hm : isMark c with
    | true => exact diceTerms_single c (lex_ne_number (noDigitAhead_of_not_leadsDie hm h))
    | false => exact diceTerms_of_not_isMark hm (lex cs)

section

variable {mode : Mode} {digits sides rest : List Char} {letter : Char}
  (hdigits : ∀ c ∈ digits, isDigit c = true) (enough : mode.leastCount ≤ digits.length)
  (hletter : isMark letter = true) (hne : sides ≠ []) (hsides : ∀ c ∈ sides, isDigit c = true)
  (hrest : NoDigitAhead rest)

include hdigits enough hletter hne hsides hrest

theorem first_dicePattern (prev : Option Char) :
    mode.dicePattern.first prev (digits ++ letter :: (sides ++ rest)) =
      some ⟨[digits, [letter], sides], rest⟩ := by
  have htake := takeWhile_digits hsides hrest
  have hlong : 1 ≤ ((sides ++ rest).takeWhile isDigit).length := by
    rw [htake]
    exact List.length_pos_of_ne_nil hne
  obtain ⟨more, hfits⟩ := fits_greedy hlong (some letter)
  have hfirst : (greedy 1 isDigit).first (some letter) (sides ++ rest) = some ⟨[sides], rest⟩ := by
    rw [first, hfits, htake, dropWhile_digits hsides hrest]
    rfl
  exact first_diePattern hdigits enough hletter hfirst

theorem terms_die :
    (mode.terms (lex (digits ++ letter :: (sides ++ rest)))).map Term.pieces =
      [digits, [letter], sides] :: (mode.terms (lex rest)).map Term.pieces := by
  have hlex : lex (letter :: (sides ++ rest)) = .mark letter :: .number sides :: lex rest := by
    rw [lex_single (isDigit_of_isMark hletter), Lexeme.ofSingle_of_isMark hletter,
      lex_number hne hsides hrest]
  cases digits with
  | nil =>
    cases mode with
    | average => rw [List.nil_append, hlex]; rfl
    | simulate => cases enough
  | cons d digits =>
    have hahead := noDigitAhead_cons (isDigit_of_isMark hletter) (sides ++ rest)
    rw [lex_number (List.cons_ne_nil d digits) hdigits hahead, hlex]
    cases mode <;> rfl

end

theorem simulate_of_few {mode : Mode} {digits : List Char}
    (few : ¬ mode.leastCount ≤ digits.length) : mode = .simulate ∧ digits = [] := by
  cases mode with
  | average => exact absurd (Nat.zero_le _) few
  | simulate =>
    cases digits with
    | nil => exact ⟨rfl, rfl⟩
    | cons d digits => exact absurd (Nat.succ_pos _) few

theorem first_dicePattern_of_not {mode : Mode} {digits cs : List Char}
    (all : ∀ c ∈ digits, isDigit c = true) (ahead : NoDigitAhead cs) (h : leadsDie cs = false)
    (prev : Option Char) : mode.dicePattern.first prev (digits ++ cs) = none :=
  first_diePattern_of_not all ahead (fun _ _ => fits_sides_of_noDigitAhead) h

/-- The search for dice and the scan for them come to the same. -/
def DiceFound (mode : Mode) (text : List Char) : Prop :=
  ∀ prev, (mode.dicePattern.findsFrom 0 prev text).map Fit.pieces =
    (mode.terms (lex text)).map Term.pieces

namespace DiceFound

variable {mode : Mode}

theorem nil (mode : Mode) : DiceFound mode [] := by
  intro prev
  have hnone : mode.dicePattern.first prev [] = none :=
    first_dicePattern_of_not (List.forall_mem_nil _) noDigitAhead_nil rfl prev
  rw [findsFrom, hnone]
  cases mode <;> rfl

theorem single {c : Char} {cs : List Char} (hc : isDigit c = false)
    (h : leadsDie (c :: cs) = false) (later : DiceFound mode cs) : DiceFound mode (c :: cs) := by
  intro prev
  have hnone : mode.dicePattern.first prev (c :: cs) = none :=
    first_dicePattern_of_not (List.forall_mem_nil _) (noDigitAhead_cons hc cs) h prev
  rw [findsFrom_of_none hnone, mode.terms_single hc h]
  exact later _

theorem number {digits cs : List Char} (ne : digits ≠ []) (all : ∀ c ∈ digits, isDigit c = true)
    (ahead : NoDigitAhead cs) (h : leadsDie cs = false) (later : DiceFound mode cs) :
    DiceFound mode (digits ++ cs) := by
  intro prev
  rw [findsFrom_pass, lex_number ne all ahead, mode.terms_number (loose_lex ahead h)]
  · exact later _
  · intro u c v huv
    show mode.dicePattern.first _ (c :: v ++ cs) = none
    refine first_dicePattern_of_not (fun x hx => all x ?_) ahead h _
    rw [huv]
    exact List.mem_append_right u hx

/-- A letter without a count is no die where counts are asked for, but its sides may be a count. -/
theorem mark {letter : Char} {cs : List Char} (hletter : isMark letter = true)
    (later : DiceFound .simulate cs) : DiceFound .simulate (letter :: cs) := by
  intro prev
  have hc := isDigit_of_isMark hletter
  have hnone : Mode.simulate.dicePattern.first prev ([] ++ letter :: cs) = none := by
    unfold first Mode.dicePattern
    rw [fits_diePattern (List.forall_mem_nil _) (noDigitAhead_cons hc cs),
      if_neg]
    · rfl
    · exact Nat.not_succ_le_zero 0
  have hskip : countedTerms (lex (letter :: cs)) = countedTerms (lex cs) := by
    rw [lex_single hc]
    exact countedTerms_singles [letter] (lex cs)
  show _ = (countedTerms (lex (letter :: cs))).map Term.pieces
  rw [findsFrom_of_none hnone, hskip]
  exact later _

theorem die {digits sides rest : List Char} {letter : Char}
    (hdigits : ∀ c ∈ digits, isDigit c = true) (enough : mode.leastCount ≤ digits.length)
    (hletter : isMark letter = true) (hne : sides ≠ []) (hsides : ∀ c ∈ sides, isDigit c = true)
    (hrest : NoDigitAhead rest) (later : DiceFound mode rest) :
    DiceFound mode (digits ++ letter :: (sides ++ rest)) := by
  intro prev
  have hfirst := first_dicePattern hdigits enough hletter hne hsides hrest prev
  rw [findsFrom_of_some hfirst (by simp [Fit.text]) (by simp [Fit.text]), List.map_cons,
    terms_die hdigits enough hletter hne hsides hrest, later]

end DiceFound

/-- The search goes from die to die; in between it passes digits and single characters. -/
theorem diceFound (mode : Mode) (text : List Char) : DiceFound mode text := by
  induction hn : text.length using Nat.strongRecOn generalizing text with
  | _ n ih =>
    subst hn
    obtain ⟨digits, cs, hdigits, hahead, rfl⟩ := exists_digits_append text
    cases hdie : leadsDie cs with
    | true =>
      obtain ⟨letter, sides, rest, rfl, hletter, hne, hsides, hrest⟩ := exists_of_leadsDie hdie
      by_cases enough : mode.leastCount ≤ digits.length
      · refine .die hdigits enough hletter hne hsides hrest (ih _ ?_ rest rfl)
        simp only [List.length_append, List.length_cons]
        omega
      · obtain ⟨rfl, rfl⟩ := simulate_of_few enough
        exact .mark hletter (ih _ (Nat.lt_succ_self _) _ rfl)
    | false =>
      cases digits with
      | nil =>
        cases cs with
        | nil => exact .nil mode
        | cons c cs => exact .single (hahead c rfl) hdie (ih _ (Nat.lt_succ_self _) cs rfl)
      | cons d digits =>
        refine .number (List.cons_ne_nil d digits) hdigits hahead hdie (ih _ ?_ cs rfl)
        simp only [List.length_append, List.length_cons]
        omega

theorem finds_dicePattern (mode : Mode) (text : List Char) :
    (mode.dicePattern.finds text).map Fit.pieces = (mode.terms (lex text)).map Term.pieces :=
  diceFound mode text none

-- the sides of a die without a count become the count of the next one
example : (Mode.simulate.dicePattern.finds ['d', '6', 'd', '8']).map Fit.pieces =
    [[['6'], ['d'], ['8']]] := by
  decide +kernel

/-! ## Constants -/

/-- But for a plus sign, nothing ends a constant except a line feed with nothing behind it. -/
theorem endsConstant_lex_cons {c : Char} (hp : c ≠ '+') (cs : List Char) :
    endsConstant (lex (c :: cs)) = true ↔ c :: cs = ['\n'] := by
  cases hd : isDigit c with
  | true =>
    obtain ⟨digits, ls, hl⟩ := lex_digit hd cs
    have hn : c ≠ '\n' := by rintro rfl; revert hd; decide
    rw [hl]
    exact ⟨fun h => (by cases h), fun h => absurd (List.cons.inj h).1 hn⟩
  | false =>
    have htext := Lexeme.text_ofSingle c
    rw [lex_single hd]
    cases hs : Lexeme.ofSingle c with
    | number digits => exact absurd hs (Lexeme.ofSingle_ne_number c digits)
    | plus => rw [hs] at htext; exact absurd (List.cons.inj htext).1.symm hp
    | newline =>
      rw [hs] at htext
      obtain rfl : '\n' = c := (List.cons.inj htext).1
      cases cs with
      | nil => exact ⟨fun _ => rfl, fun _ => rfl⟩
      | cons d cs =>
        cases hl : lex (d :: cs) with
        | nil => exact absurd hl (lex_ne_nil d cs)
        | cons l ls => exact ⟨fun h => (by cases h), fun h => (by cases h)⟩
    | _ =>
      refine ⟨fun h => (by cases h), fun h => ?_⟩
      rw [(List.cons.inj h).1, show Lexeme.ofSingle '\n' = .newline from rfl] at hs
      cases hs

theorem first_constantEnd (prev : Option Char) (cs : List Char) :
    constantEnd.first prev cs = if endsConstant (lex cs) then some ⟨[], cs⟩ else none := by
  cases cs with
  | nil => rfl
  | cons c cs =>
    by_cases hp : c = '+'
    · subst hp
      rw [lex_single (by decide)]
      rfl
    · have hfirst : constantEnd.first prev (c :: cs) =
          if c :: cs = ['\n'] then some ⟨[], c :: cs⟩ else none := by
        by_cases hn : c :: cs = ['\n'] <;> simp [first, fits, constantEnd, hp, hn]
      rw [hfirst]
      simp only [endsConstant_lex_cons hp]

theorem first_constantPattern_of_not {prev : Option Char} (h : prev ≠ some '+') (cs : List Char) :
    constantPattern.first prev cs = none := by
  unfold first constantPattern
  rw [fits_seq_behind, if_neg]
  · rfl
  · intro hany
    cases prev with
    | none => cases hany
    | some c => exact h (congrArg some (beq_iff_eq.1 hany))

theorem first_constantPattern_of_noDigitAhead {cs : List Char} (h : NoDigitAhead cs)
    (prev : Option Char) : constantPattern.first prev cs = none := by
  unfold first constantPattern
  rw [fits_seq_behind, fits_seq_of_nil (fits_sides_of_noDigitAhead h)]
  split <;> rfl

theorem first_constantPattern {digits cs : List Char} (ne : digits ≠ [])
    (all : ∀ c ∈ digits, isDigit c = true) (ahead : NoDigitAhead cs) :
    constantPattern.first (some '+') (digits ++ cs) =
      if endsConstant (lex cs) then some ⟨[digits], cs⟩ else none := by
  have hrefuse : ∀ prev c cs, isDigit c = true → constantEnd.fits prev (c :: cs) = [] := by
    intro prev c cs hc
    have hp : c ≠ '+' := by rintro rfl; revert hc; decide
    have hn : c ≠ '\n' := by rintro rfl; revert hc; decide
    simp [fits, constantEnd, hp, hn]
  have hlong : 1 ≤ digits.length := List.length_pos_of_ne_nil ne
  have hend := first_constantEnd (digits.getLast?.or (some '+')) cs
  rw [first] at hend
  unfold first constantPattern
  rw [fits_seq_behind, if_pos (show Option.any (· == '+') (some '+') = true from rfl),
    fits_seq_greedy 1 hrefuse, takeWhile_digits all ahead, dropWhile_digits all ahead,
    if_pos hlong, List.head?_map, hend]
  split <;> rfl

theorem getLast?_or_ne_plus {u : List Char} (hu : ∀ c ∈ u, isDigit c = true) {prev : Option Char}
    (h : u = [] → prev ≠ some '+') : u.getLast?.or prev ≠ some '+' := by
  cases hl : u.getLast? with
  | none => exact h (List.getLast?_eq_none_iff.1 hl)
  | some d =>
    rintro hd
    have hplus := hu d (List.mem_of_getLast? hl)
    rw [Option.some.inj hd] at hplus
    revert hplus
    decide

/-- The search for constants and the scan for them come to the same, with a plus sign before the
text (`behindPlus`) and without one. -/
structure ConstantsFound (text : List Char) : Prop where
  apart : ∀ prev, prev ≠ some '+' →
    (constantPattern.findsFrom 0 prev text).map Fit.pieces =
      (constantTerms (lex text)).map fun digits => [digits]
  behindPlus : (constantPattern.findsFrom 0 (some '+') text).map Fit.pieces =
    (constantTerms (.plus :: lex text)).map fun digits => [digits]

namespace ConstantsFound

theorem nil : ConstantsFound [] := by
  have hfinds : ∀ prev, constantPattern.findsFrom 0 prev [] = [] := by
    intro prev
    rw [findsFrom, first_constantPattern_of_noDigitAhead noDigitAhead_nil]
    rfl
  refine ⟨?_, ?_⟩
  · intro prev _
    rw [hfinds]
    rfl
  · rw [hfinds]
    rfl

theorem single {c : Char} {cs : List Char} (hc : isDigit c = false) (later : ConstantsFound cs) :
    ConstantsFound (c :: cs) := by
  have hnone : ∀ prev, constantPattern.first prev (c :: cs) = none :=
    first_constantPattern_of_noDigitAhead (noDigitAhead_cons hc cs)
  have hnext : (constantPattern.findsFrom 0 (some c) cs).map Fit.pieces =
      (constantTerms (lex (c :: cs))).map fun digits => [digits] := by
    rw [lex_single hc]
    by_cases hp : c = '+'
    · subst hp
      exact later.behindPlus
    · have htext := Lexeme.text_ofSingle c
      rw [later.apart _ fun h => hp (Option.some.inj h)]
      cases hs : Lexeme.ofSingle c with
      | plus => rw [hs] at htext; exact absurd (List.cons.inj htext).1.symm hp
      | _ => rfl
  have hplus : constantTerms (.plus :: lex (c :: cs)) = constantTerms (lex (c :: cs)) := by
    rw [lex_single hc]
    cases hs : Lexeme.ofSingle c with
    | number digits => exact absurd hs (Lexeme.ofSingle_ne_number c digits)
    | _ => rfl
  refine ⟨?_, ?_⟩
  · intro prev _
    rw [findsFrom_of_none (hnone prev), hnext]
  · rw [findsFrom_of_none (hnone _), hnext, hplus]

theorem number {digits cs : List Char} (ne : digits ≠ []) (all : ∀ c ∈ digits, isDigit c = true)
    (ahead : NoDigitAhead cs) (later : ConstantsFound cs) : ConstantsFound (digits ++ cs) := by
  have hpass : ∀ prev, constantPattern.first prev (digits ++ cs) = none →
      (constantPattern.findsFrom 0 prev (digits ++ cs)).map Fit.pieces =
        (constantTerms (lex cs)).map fun digits => [digits] := by
    intro prev hfirst
    rw [findsFrom_pass]
    · exact later.apart _ (getLast?_or_ne_plus all fun h => absurd h ne)
    · intro u c v huv
      cases u with
      | nil =>
        subst huv
        exact hfirst
      | cons d u =>
        refine first_constantPattern_of_not (getLast?_or_ne_plus (fun x hx => all x ?_) ?_) _
        · rw [huv]
          exact List.mem_append_left _ hx
        · exact fun h => by cases h
  have hlex := lex_number ne all ahead
  refine ⟨?_, ?_⟩
  · intro prev hprev
    rw [hlex]
    exact hpass prev (first_constantPattern_of_not hprev _)
  · have hfirst := first_constantPattern ne all ahead
    rw [hlex, constantTerms]
    cases hends : endsConstant (lex cs) with
    | true =>
      have hprev : (Fit.text ⟨[digits], cs⟩).getLast? ≠ some '+' := by
        have h : digits.getLast?.or none ≠ some '+' := getLast?_or_ne_plus all fun h => absurd h ne
        simpa [Fit.text] using h
      rw [hends, if_pos rfl] at hfirst
      rw [findsFrom_of_some hfirst (by simpa [Fit.text] using ne) (by simp [Fit.text]),
        List.map_cons, if_pos rfl, List.map_cons]
      exact congrArg (List.cons [digits]) (later.apart _ hprev)
    | false =>
      rw [hends] at hfirst
      exact hpass _ hfirst

end ConstantsFound

theorem finds_constantPattern (text : List Char) :
    (constantPattern.finds text).map Fit.pieces =
      (constantTerms (lex text)).map fun digits => [digits] := by
  have hfound : ConstantsFound text := by
    induction text using cutInduction with
    | nil => exact .nil
    | single c cs hc ih => exact .single hc ih
    | number digits cs ne all ahead ih => exact .number ne all ahead ih
  exact hfound.apart none fun h => by cases h

/-! ## Words and chains -/

/-- `discover` finds what the search for `formulaPattern` does: the `wordFormula` of every word that
has one, in order. It refuses a text when no word has one. -/
theorem discover_eq_words (text : List Char) :
    (formulaPattern.finds text).map Fit.text = (words text).filterMap wordFormula ∧
      discover text =
        (if (words text).filterMap wordFormula = [] then .error .noFormula
         else .ok ((words text).filterMap wordFormula)) ∧
      (discover text = .error .noFormula ↔ ∀ w ∈ words text, wordFormula w = none) := by
  refine ⟨?_, ?_, ?_⟩
  · rw [finds_formulaPattern, formulas_eq_words]
  · split
    · rename_i h
      apply discover_eq_error_iff.2
      rw [formulas_eq_words]
      exact ⟨h, rfl⟩
    · rename_i h
      apply discover_eq_ok_iff.2
      exact ⟨formulas_eq_words text, h⟩
  · rw [discover_eq_error_iff, formulas_eq_words, List.filterMap_eq_nil_iff]
    exact and_iff_left rfl

/-- The dice that a `mode` takes from a text, by its scan and by the search for its pattern, are
those of the chains of the text. -/
theorem terms_eq_chains (mode : Mode) (text : List Char) :
    mode.terms (lex text) = (chains text).flatMap mode.chainTerms ∧
      (mode.dicePattern.finds text).map Fit.pieces =
        ((chains text).flatMap mode.chainTerms).map Term.pieces := by
  have hterms := mode.terms_lex text
  exact ⟨hterms, by rw [finds_dicePattern, hterms]⟩

end DiceFormula
