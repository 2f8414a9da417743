/-!
# Modes

A formula is answered by its average or by a roll of its dice. The outside
world names the two by a word.
-/

namespace DiceFormula

inductive Mode where
  | average
  | simulate
  deriving DecidableEq, Repr

namespace Mode

def name : Mode → String
  | average => "average"
  | simulate => "simulate"

def ofName? (word : String) : Option Mode :=
  if word = average.name then some average
  else if word = simulate.name then some simulate
  else none

theorem ofName?_name (mode : Mode) : ofName? mode.name = some mode := by
  cases mode <;> decide

theorem ofName?_cases (word : String) :
    (∃ mode, word = name mode ∧ ofName? word = some mode) ∨
      (∀ mode, word ≠ name mode) ∧ ofName? word = none := by
  cases h : ofName? word with
  | some mode =>
    refine .inl ⟨mode, ?_, rfl⟩
    unfold ofName? at h
    split at h
    · cases h
      assumption
    · split at h
      · cases h
        assumption
      · cases h
  | none =>
    refine .inr ⟨?_, rfl⟩
    rintro mode rfl
    cases (ofName?_name mode).symm.trans h

end Mode

end DiceFormula
