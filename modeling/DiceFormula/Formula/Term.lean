import DiceFormula.Text.Lexeme
import DiceFormula.Mode

/-!
# Terms

The dice and constants of a formula as they are written, found by two scans of
its lexemes that know nothing of each other. Average mode takes a die with or
without a count; simulate mode takes counted dice only. A constant is a number
between a plus sign and another plus sign or the end, where one line feed may
stand before the end. Whatever is not a term is skipped, one lexeme at a time.
-/

namespace DiceFormula

/-- A die as it is written; a bare die has no `count`. -/
structure Term where
  count : Option (List Char)
  letter : Char
  sides : List Char
  deriving DecidableEq, Repr

def Term.text (t : Term) : List Char :=
  t.count.getD [] ++ t.letter :: t.sides

/-- Every die, from left to right. -/
def diceTerms : List Lexeme → List Term
  | .number count :: .mark letter :: .number sides :: ls =>
    ⟨some count, letter, sides⟩ :: diceTerms ls
  | .mark letter :: .number sides :: ls => ⟨none, letter, sides⟩ :: diceTerms ls
  | _ :: ls => diceTerms ls
  | [] => []

/-- Every counted die, from left to right. -/
def countedTerms : List Lexeme → List Term
  | .number count :: .mark letter :: .number sides :: ls =>
    ⟨some count, letter, sides⟩ :: countedTerms ls
  | _ :: ls => countedTerms ls
  | [] => []

def Mode.terms : Mode → List Lexeme → List Term
  | average => diceTerms
  | simulate => countedTerms

/-- Whether a constant may end here. -/
def endsConstant : List Lexeme → Bool
  | [] => true
  | [.newline] => true
  | .plus :: _ => true
  | _ => false

/-- The numbers that a plus sign leads and that `endsConstant` ends. -/
def constantTerms : List Lexeme → List (List Char)
  | .plus :: .number digits :: ls =>
    if endsConstant ls then digits :: constantTerms ls else constantTerms ls
  | _ :: ls => constantTerms ls
  | [] => []

section

variable {t : Term} {digits : List Char}

theorem number_mem_of_mem_diceTerms {ls : List Lexeme} (ht : t ∈ diceTerms ls)
    (hd : t.count = some digits) : .number digits ∈ ls := by
  fun_induction diceTerms ls with
  | case1 count letter sides ls ih =>
    rcases List.mem_cons.1 ht with rfl | ht
    · cases hd
      exact List.mem_cons_self
    · simp [ih ht]
  | case2 letter sides ls ih =>
    rcases List.mem_cons.1 ht with rfl | ht
    · cases hd
    · simp [ih ht]
  | case3 l ls _ _ ih => exact List.mem_cons_of_mem l (ih ht)
  | case4 => cases ht

theorem number_mem_of_mem_countedTerms {ls : List Lexeme} (ht : t ∈ countedTerms ls)
    (hd : t.count = some digits) : .number digits ∈ ls := by
  fun_induction countedTerms ls with
  | case1 count letter sides ls ih =>
    rcases List.mem_cons.1 ht with rfl | ht
    · cases hd
      exact List.mem_cons_self
    · simp [ih ht]
  | case2 l ls _ ih => exact List.mem_cons_of_mem l (ih ht)
  | case3 => cases ht

theorem Mode.number_mem_of_mem_terms {mode : Mode} {ls : List Lexeme} (ht : t ∈ mode.terms ls)
    (hd : t.count = some digits) : .number digits ∈ ls := by
  cases mode with
  | average => exact number_mem_of_mem_diceTerms ht hd
  | simulate => exact number_mem_of_mem_countedTerms ht hd

end

/-- Whether a lexeme may stand in a die. -/
def Lexeme.isDiePart : Lexeme → Bool
  | number _ | mark _ => true
  | _ => false

section

variable {l : Lexeme} (apart : l.isDiePart = false)

include apart

/-- The letter and the sides of a die stand on one side of `l`. -/
theorem exists_die_of_append {ls ms rest : List Lexeme} {letter : Char} {sides : List Char}
    (h : ls ++ l :: ms = .mark letter :: .number sides :: rest) :
    ∃ more, ls = .mark letter :: .number sides :: more := by
  rcases ls with _ | ⟨a, _ | ⟨b, more⟩⟩
  · cases h
    cases apart
  · cases h
    cases apart
  · cases h
    exact ⟨more, rfl⟩

theorem diceTerms_append (ls ms : List Lexeme) :
    diceTerms (ls ++ l :: ms) = diceTerms ls ++ diceTerms ms := by
  fun_induction diceTerms ls with
  | case1 count letter sides ls ih => exact congrArg (⟨some count, letter, sides⟩ :: ·) ih
  | case2 letter sides ls ih => exact congrArg (⟨none, letter, sides⟩ :: ·) ih
  | case3 a ls counted bare ih =>
    rw [List.cons_append, ← ih]
    apply diceTerms.eq_3
    · intro count letter sides rest ha h
      obtain ⟨more, hls⟩ := exists_die_of_append apart h
      exact counted count letter sides more ha hls
    · intro letter sides rest ha h
      have hdie : a :: ls ++ l :: ms = .mark letter :: .number sides :: rest := by
        rw [List.cons_append, ha, h]
      obtain ⟨more, hls⟩ := exists_die_of_append apart hdie
      cases hls
      exact bare letter sides more rfl rfl
  | case4 =>
    cases l with
    | number _ => cases apart
    | mark _ => cases apart
    | _ => rfl

theorem countedTerms_append (ls ms : List Lexeme) :
    countedTerms (ls ++ l :: ms) = countedTerms ls ++ countedTerms ms := by
  fun_induction countedTerms ls with
  | case1 count letter sides ls ih => exact congrArg (⟨some count, letter, sides⟩ :: ·) ih
  | case2 a ls counted ih =>
    rw [List.cons_append, ← ih]
    apply countedTerms.eq_2
    intro count letter sides rest ha h
    obtain ⟨more, hls⟩ := exists_die_of_append apart h
    exact counted count letter sides more ha hls
  | case3 =>
    cases l with
    | number _ => cases apart
    | mark _ => cases apart
    | _ => rfl

/-- Dice before and behind `l`, which is no part of a die, are found apart. -/
theorem Mode.terms_append (mode : Mode) (ls ms : List Lexeme) :
    mode.terms (ls ++ l :: ms) = mode.terms ls ++ mode.terms ms := by
  cases mode with
  | average => exact diceTerms_append apart ls ms
  | simulate => exact countedTerms_append apart ls ms

end

end DiceFormula
