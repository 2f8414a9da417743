import DiceFormula.Proofs.Formula.Alike
import DiceFormula.Proofs.Roll.Agreement
import DiceFormula.Page.Evaluation

/-!
# Pages that are alike

Nothing but the kind of each character decides what becomes of a page: pages
that are alike have as many entries, the same totals, errors of the same class
at the same places, and draw as many bytes (`entries_alike`).
-/

namespace DiceFormula

structure Entry.Alike (e e' : Entry) : Prop where
  formula : AlikeTexts e.formula e'.formula
  mode_eq : e.mode = e'.mode
  total_eq : e.total = e'.total
  error : Option.Rel DiceError.Alike e.error e'.error

namespace Page

open Roll

section

variable {a b : List Char}

/-- `f` and `g` are both refused, or roll the same dice. -/
theorem agree_entry {f g : List Char} (alike : AlikeTexts f g) (mode : Mode) :
    Agree Entry.Alike (entry mode f) (entry mode g) := by
  intro bytes
  have hread := Formula.alike_read alike mode
  generalize hf : Formula.read mode f = readf at hread
  generalize hg : Formula.read mode g = readg at hread
  cases hread with
  | error he =>
    rw [run_entry_refused (run_evaluate_error hf bytes),
      run_entry_refused (run_evaluate_error hg bytes)]
    exact ⟨rfl, .ok ⟨alike, rfl, rfl, .some he⟩⟩
  | ok formula =>
    have hrunf := run_evaluate_ok hf bytes
    have hrung := run_evaluate_ok hg bytes
    have hstarves := onlyStarves_total hf bytes
    rcases hrun : (formula.total mode).run bytes with ⟨why | total, rest, log⟩
    · rw [hrun] at hrunf hrung
      obtain rfl : why = .outOfBytes := hstarves why (by rw [hrun])
      rw [run_entry_outOfBytes hrunf, run_entry_outOfBytes hrung]
      exact ⟨rfl, .error .outOfBytes⟩
    · rw [hrun] at hrunf hrung
      rw [run_entry_ok hrunf, run_entry_ok hrung]
      exact ⟨rfl, .ok ⟨alike, rfl, rfl, .none⟩⟩

variable (alike : AlikeTexts a b) (mode : Mode)

include alike

theorem agree_found : Agree (List.Forall₂ AlikeTexts) (found a) (found b) := by
  have hdiscover : Agree (List.Forall₂ AlikeTexts) (ofExcept (discover a))
      (ofExcept (discover b)) := by
    have hformulas := alike_formulas alike
    unfold discover
    generalize formulas a = fs at hformulas ⊢
    generalize formulas b = gs at hformulas ⊢
    cases hformulas with
    | nil => exact agree_fail _ _
    | cons h hs => exact agree_pure (.cons h hs)
  exact hdiscover.bind fun fs gs h => (agree_tell _ _).bind fun _ _ _ => agree_pure h

theorem agree_entries : Agree (List.Forall₂ Entry.Alike) (entries mode a) (entries mode b) :=
  (agree_found alike).bind fun _ _ h => (agree_tell _ _).bind fun _ _ _ =>
    agree_mapM (h.imp fun _ _ h => agree_entry h mode)

end

/-- `a` and `b` are cut in the same spans, or neither has a formula. On every stream their entries
are `Entry.Alike`, or both pages fail for the same reason, and they use as many bytes. -/
theorem entries_alike {a b : List Char} (alike : AlikeTexts a b) (mode : Mode) :
    formulaPattern.spans a = formulaPattern.spans b ∧
      (discover a = .error .noFormula ∧ discover b = .error .noFormula ∨
        discover a = .ok ((formulaPattern.spans a).map (Pattern.slice a)) ∧
          discover b = .ok ((formulaPattern.spans b).map (Pattern.slice b))) ∧
      ∀ bytes,
        ((entries mode a).run bytes).Agree (List.Forall₂ Entry.Alike)
            ((entries mode b).run bytes) ∧
          (entries mode a).used bytes = (entries mode b).used bytes := by
  obtain ⟨hspans, hdiscover⟩ := discover_of_alike alike
  refine ⟨hspans, hdiscover, fun bytes => ?_⟩
  have hagree := agree_entries alike mode bytes
  exact ⟨hagree, by rw [used, used, hagree.rest_eq]⟩

/-- Letters in either case and figures of three scripts, with a rejected byte before two dice, and a
die without a side. -/
theorem entries_alike_scripts :
    let a := ['2', 'D', '6', '+', '0', '3', ' ', '1', 'd', '0']
    let b := ['٢', 'd', '6', '+', '０', '３', ' ', '1', 'D', '٠']
    let bytes : List Byte := [254, 3, 0, 9]
    AlikeTexts a b ∧ formulaPattern.spans a = [(0, 6), (7, 3)] ∧
      formulaPattern.spans b = [(0, 6), (7, 3)] ∧
      discover b = .ok [['٢', 'd', '6', '+', '０', '３'], ['1', 'D', '٠']] ∧
      ((entries .simulate a).run bytes).result =
        .ok [⟨['2', 'D', '6', '+', '0', '3'], .simulate, some 8, none⟩,
          ⟨['1', 'd', '0'], .simulate, none, some (.malformed ['1', 'd', '0'] .noSide)⟩] ∧
      ((entries .simulate a).run bytes).Agree (List.Forall₂ Entry.Alike)
        ((entries .simulate b).run bytes) ∧
      (entries .simulate b).used bytes = 3 := by
  intro a b bytes
  have halike : AlikeTexts a b := by decide +kernel
  have hspans : formulaPattern.spans a = [(0, 6), (7, 3)] := by decide +kernel
  have hentries : ((entries .simulate a).run bytes).result =
      .ok [⟨['2', 'D', '6', '+', '0', '3'], .simulate, some 8, none⟩,
        ⟨['1', 'd', '0'], .simulate, none, some (.malformed ['1', 'd', '0'] .noSide)⟩] := by
    decide +kernel
  have hused : (entries .simulate a).used bytes = 3 := by decide +kernel
  have hdiscover : discover b = .ok [['٢', 'd', '6', '+', '０', '３'], ['1', 'D', '٠']] := by
    decide +kernel
  obtain ⟨hspansEq, -, hruns⟩ := entries_alike halike .simulate
  obtain ⟨hagree, husedEq⟩ := hruns bytes
  exact ⟨halike, hspans, hspansEq ▸ hspans, hdiscover, hentries, hagree, husedEq ▸ hused⟩

end Page

end DiceFormula
