import DiceFormula.Page.Evaluation

/-!
# Modes by name

The operations for a caller who names the mode by a word. A word that names no
mode is noticed where the mode is first needed: when a formula is read, after
it has been reported as begun. A notice needs no mode to be right: whatever is
not an average is called simulated.
-/

namespace DiceFormula.ByName

/-- The mode that a notice names for `word`. -/
def noticeMode (word : String) : Mode :=
  (Mode.ofName? word).getD .simulate

def parse (word : String) (text : List Char) : Roll Formula :=
  match Mode.ofName? word with
  | some mode => Formula.parse mode text
  | none => Roll.fail (.unknownMode word)

def evaluate (word : String) (text : List Char) : Roll Int :=
  match Mode.ofName? word with
  | some mode => DiceFormula.evaluate mode text
  | none => do
    Roll.tell (.startedFormula text word)
    Roll.fail (.unknownMode word)

/-- A `word` that names no mode ends the page at its first formula. -/
def entries (word : String) (text : List Char) : Roll (List Entry) :=
  match Mode.ofName? word with
  | some mode => Page.entries mode text
  | none => do
    let fs ← Page.found text
    Roll.tell (.startedPage fs.length)
    Roll.tellAll ((fs.take 1).map (.startedFormula · word))
    Roll.fail (.unknownMode word)

/-- Either `word` names a mode in all three operations, or it fails all three with `unknownMode` and
draws nothing; `discover` goes first. -/
theorem mode_or_unknown (word : String) (text : List Char) :
    (∃ mode, word = Mode.name mode ∧ parse word text = Formula.parse mode text ∧
        evaluate word text = DiceFormula.evaluate mode text ∧
        entries word text = Page.entries mode text) ∨
      (∀ mode, word ≠ Mode.name mode) ∧ ∀ bytes,
        (parse word text).run bytes = ⟨.error (.unknownMode word), bytes, []⟩ ∧
          (evaluate word text).run bytes =
            ⟨.error (.unknownMode word), bytes, [.startedFormula text word]⟩ ∧
          ((entries word text).run bytes).rest = bytes ∧
          ((entries word text).run bytes).result =
            match discover text with
            | .ok _ => .error (.unknownMode word)
            | .error e => .error (.refused e) := by
  rcases Mode.ofName?_cases word with ⟨mode, rfl, hmode⟩ | ⟨hnone, hmode⟩
  · refine .inl ⟨mode, rfl, ?_, ?_, ?_⟩
    · rw [parse, hmode]
    · rw [evaluate, hmode]
    · rw [entries, hmode]
  · refine .inr ⟨hnone, fun bytes => ⟨?_, ?_, ?_⟩⟩
    · rw [parse, hmode]
      rfl
    · rw [evaluate, hmode]
      rfl
    · rw [entries, hmode]
      cases hfound : discover text with
      | error e => simp [Page.found, hfound, Roll.run_bind]
      | ok fs => simp [Page.found, hfound, Roll.run_bind]

end DiceFormula.ByName
