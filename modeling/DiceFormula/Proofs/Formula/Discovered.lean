import DiceFormula.Proofs.Formula.Faults
import DiceFormula.Proofs.Formula.Spans

/-!
# The dice of a formula that is found

Discovery and reading agree on what a die is: a formula that is found begins
with a die that average mode takes (`exists_places_of_mem_formulas`), so average
mode has terms to read. Simulate mode has terms just where a digit, a die letter
and a digit stand next to each other (`countedTerms_eq_nil_iff`).
-/

namespace DiceFormula

open Pattern

/-! ## The first die -/

/-- A word that is its own formula begins with a die. -/
theorem exists_of_wordFormula_eq_self {f : List Char} (h : wordFormula f = some f) :
    ∃ digits cs, (∀ c ∈ digits, isDigit c = true) ∧ leadsDie cs = true ∧ f = digits ++ cs := by
  obtain ⟨digits, cs, hdigits, hahead, rfl⟩ := exists_digits_append f
  refine ⟨digits, cs, hdigits, ?_, rfl⟩
  rw [wordFormula_number hdigits hahead] at h
  split at h
  · assumption
  · -- the formula would be a part of what stands behind its first character
    have hdigitsNil : digits = [] := by
      have hle := (wordFormula_suffix h).length_le
      rw [List.length_append] at hle
      exact List.eq_nil_of_length_eq_zero (by omega)
    subst hdigitsNil
    cases cs with
    | nil => cases h
    | cons c cs =>
      rw [wordFormula_single (hahead c rfl)] at h
      split at h
      · assumption
      · have hle := (wordFormula_suffix h).length_le
        exact absurd hle (Nat.not_succ_le_self _)

section

variable {text f : List Char}

/-- The search for dice in a formula has its first find at the beginning. -/
theorem exists_places_of_mem_formulas (h : f ∈ formulas text) :
    ∃ m more, Mode.average.dicePattern.places f = (0, m) :: more := by
  obtain ⟨-, -, hself⟩ := of_mem_formulas h
  obtain ⟨digits, cs, hdigits, hdie, rfl⟩ := exists_of_wordFormula_eq_self hself
  obtain ⟨letter, sides, rest, rfl, hletter, hne, hsides, hrest⟩ := exists_of_leadsDie hdie
  have hleast : Mode.average.leastCount ≤ digits.length := Nat.zero_le _
  have hfirst := first_dicePattern hdigits hleast hletter hne hsides hrest none
  exact ⟨_, exists_places_of_first hfirst⟩

theorem Mode.terms_eq_nil_iff (mode : Mode) :
    mode.terms (lex text) = [] ↔ mode.dicePattern.finds text = [] := by
  rw [← List.map_eq_nil_iff (f := Term.pieces), ← finds_dicePattern, List.map_eq_nil_iff]

theorem diceTerms_ne_nil (h : f ∈ formulas text) : diceTerms (lex f) ≠ [] := by
  obtain ⟨m, more, hplaces⟩ := exists_places_of_mem_formulas h
  intro hnil
  have hfinds := (Mode.terms_eq_nil_iff .average).1 hnil
  rw [← map_places, hplaces] at hfinds
  cases hfinds

end

/-! ## Counted dice -/

/-- A digit, the letter of a die and a digit stand next to each other. -/
def HasCountedDie (text : List Char) : Prop :=
  ∃ u a letter b v, text = u ++ a :: letter :: b :: v ∧
    isDigit a = true ∧ isMark letter = true ∧ isDigit b = true

theorem hasCountedDie_of_mem_places {text : List Char} {x : Nat × Fit}
    (h : x ∈ Mode.simulate.dicePattern.places text) : HasCountedDie text := by
  obtain ⟨u, v, rfl, -, hfirst⟩ := exists_of_mem_places h
  obtain ⟨count, letter, sides, -, hleast, hcount, hletter, hne, hsides, rfl⟩ :=
    exists_of_first_dicePattern hfirst
  obtain ⟨b, sides, rfl⟩ := List.exists_cons_of_ne_nil hne
  rcases List.eq_nil_or_concat' count with rfl | ⟨count, a, rfl⟩
  · exact absurd hleast (by decide)
  · refine ⟨u ++ count, a, letter, b, sides ++ x.2.rest, by simp, ?_, hletter, ?_⟩
    · exact hcount a (List.mem_append_right count List.mem_cons_self)
    · exact hsides b List.mem_cons_self

theorem finds_ne_nil_of_hasCountedDie {text : List Char} (h : HasCountedDie text) :
    Mode.simulate.dicePattern.finds text ≠ [] := by
  obtain ⟨u, a, c, b, v, rfl, ha, hc, hb⟩ := h
  intro hnil
  have hnone := first_eq_none_of_findsFrom hnil rfl
  have hleads : leadsDie (c :: b :: v) = true := Bool.and_eq_true_iff.2 ⟨hc, hb⟩
  obtain ⟨letter, sides, rest, hdie, hletter, hne, hsides, hrest⟩ := exists_of_leadsDie hleads
  have hleast : Mode.simulate.leastCount ≤ [a].length := Nat.le_refl 1
  have hfirst := first_dicePattern (List.forall_mem_singleton.2 ha) hleast hletter hne hsides hrest
    (u.getLast?.or none)
  rw [hdie] at hnone
  cases hnone.symm.trans hfirst

theorem countedTerms_eq_nil_iff (text : List Char) :
    countedTerms (lex text) = [] ↔ ¬ HasCountedDie text := by
  have hterms : countedTerms (lex text) = [] ↔ Mode.simulate.dicePattern.finds text = [] :=
    Mode.terms_eq_nil_iff .simulate
  rw [hterms]
  refine ⟨fun hnil h => finds_ne_nil_of_hasCountedDie h hnil, fun h => ?_⟩
  rw [← map_places, List.map_eq_nil_iff, List.eq_nil_iff_forall_not_mem]
  exact fun x hx => h (hasCountedDie_of_mem_places hx)

end DiceFormula
