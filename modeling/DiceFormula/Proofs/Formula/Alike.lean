import DiceFormula.Proofs.Formula.Faults
import DiceFormula.Proofs.Text.Alike

/-!
# Formulas that are alike

Texts that are alike have their formulas in the same spans
(`discover_of_alike`), and formulas that are alike are read alike: as the same
dice and constants, or both not, for the same reason (`alike_read`). The three
patterns of the notation look at the kinds of characters alone, so what the
searches find in one text is alike to what they find in the other.
-/

namespace DiceFormula

/-- Errors of one class, about texts that are alike. -/
inductive DiceError.Alike : DiceError → DiceError → Prop where
  | noDice {f g : List Char} : AlikeTexts f g → Alike (.noDice f) (.noDice g)
  | malformed {t u : List Char} (reason : Reason) :
      AlikeTexts t u → Alike (.malformed t reason) (.malformed u reason)

inductive OutcomesAlike {α : Type} : Except DiceError α → Except DiceError α → Prop where
  | ok (a : α) : OutcomesAlike (.ok a) (.ok a)
  | error {e e' : DiceError} : e.Alike e' → OutcomesAlike (.error e) (.error e')

/-- `t` and `u` are of one shape, and alike part by part. -/
structure Term.Alike (t u : Term) : Prop where
  count : Option.Rel AlikeTexts t.count u.count
  letter : DiceFormula.Alike t.letter u.letter
  sides : AlikeTexts t.sides u.sides

/-! ## Readings one by one -/

theorem forall₂_imp_of_mem {α β : Type} {R S : α → β → Prop} {xs : List α} {ys : List β}
    (h : List.Forall₂ R xs ys) (himp : ∀ x ∈ xs, ∀ y ∈ ys, R x y → S x y) :
    List.Forall₂ S xs ys := by
  induction h with
  | nil => exact .nil
  | cons hxy _ ih =>
    refine .cons (himp _ List.mem_cons_self _ List.mem_cons_self hxy) (ih fun x hx y hy => ?_)
    exact himp x (List.mem_cons_of_mem _ hx) y (List.mem_cons_of_mem _ hy)

namespace OutcomesAlike

variable {α β γ : Type}

theorem bind {x y : Except DiceError α} {f g : α → Except DiceError β} (h : OutcomesAlike x y)
    (hf : ∀ a, OutcomesAlike (f a) (g a)) : OutcomesAlike (x >>= f) (y >>= g) := by
  cases h with
  | ok a => exact hf a
  | error he => exact .error he

theorem mapM {f : α → Except DiceError γ} {g : β → Except DiceError γ} {xs : List α}
    {ys : List β} (h : List.Forall₂ (fun x y => OutcomesAlike (f x) (g y)) xs ys) :
    OutcomesAlike (xs.mapM f) (ys.mapM g) := by
  induction h with
  | nil => exact .ok []
  | cons hxy _ ih =>
    rw [List.mapM_cons, List.mapM_cons]
    exact hxy.bind fun z => ih.bind fun zs => .ok (z :: zs)

end OutcomesAlike

/-! ## The patterns of the notation -/

open Pattern

theorem blind_diePattern (least : Nat) {more : Pattern} (h : more.Blind plain) :
    (diePattern least more).Blind plain :=
  ⟨isDigit_plain, isMark_plain, h⟩

theorem plain_eq_newline_iff (c : Char) : plain c = '\n' ↔ c = '\n' := holds_plain_iff .newline

theorem beq_plain_plus (c : Char) : (plain c == '+') = (c == '+') :=
  beq_plain (fun _ => holds_plain_iff .plus) c

theorem blind_formulaPattern : formulaPattern.Blind plain :=
  blind_diePattern 0 ⟨isDigit_plain, fun c => congrArg not (beq_plain plain_eq_newline_iff c),
    beq_plain fun _ => holds_plain_iff .space, beq_plain plain_eq_newline_iff,
    plain_eq_newline_iff⟩

theorem Mode.blind_dicePattern (mode : Mode) : mode.dicePattern.Blind plain :=
  blind_diePattern mode.leastCount isDigit_plain

theorem blind_constantPattern : constantPattern.Blind plain :=
  ⟨beq_plain_plus, isDigit_plain, beq_plain_plus, plain_eq_newline_iff⟩

theorem Term.alike_of_pieces {t u : Term} (ht : t.count ≠ some []) (hu : u.count ≠ some [])
    (h : List.Forall₂ AlikeTexts t.pieces u.pieces) : t.Alike u := by
  obtain ⟨count, letter, sides⟩ := t
  obtain ⟨count', letter', sides'⟩ := u
  obtain ⟨hcount, hmore⟩ := List.forall₂_cons.1 h
  obtain ⟨hletter, hsides⟩ := List.forall₂_cons.1 hmore
  refine ⟨?_, (List.forall₂_cons.1 hletter).1, (List.forall₂_cons.1 hsides).1⟩
  cases count with
  | none =>
    cases count' with
    | none => exact .none
    | some es => exact absurd (congrArg some (List.forall₂_nil_left_iff.1 hcount)) hu
  | some ds =>
    cases count' with
    | none => exact absurd (congrArg some (List.forall₂_nil_right_iff.1 hcount)) ht
    | some es => exact .some hcount

/-! ## What is found -/

section

variable {a b : List Char} (alike : AlikeTexts a b)

theorem formulas_eq_slices (text : List Char) :
    formulas text = (formulaPattern.spans text).map (slice text) := by
  rw [map_slice_spans, finds_formulaPattern]

include alike

theorem alike_formulas : List.Forall₂ AlikeTexts (formulas a) (formulas b) := by
  rw [formulas_eq_slices, formulas_eq_slices, spans_eq_of_alike blind_formulaPattern alike,
    List.forall₂_map_left_iff, List.forall₂_map_right_iff, List.forall₂_same]
  exact fun span _ => alike.slice span

/-- `a` and `b` are cut in the same spans, or neither has a formula. -/
theorem discover_of_alike :
    formulaPattern.spans a = formulaPattern.spans b ∧
      (discover a = .error .noFormula ∧ discover b = .error .noFormula ∨
        discover a = .ok ((formulaPattern.spans a).map (slice a)) ∧
          discover b = .ok ((formulaPattern.spans b).map (slice b))) := by
  have hspans := spans_eq_of_alike blind_formulaPattern alike
  refine ⟨hspans, ?_⟩
  rw [discover_eq_ok_iff, discover_eq_ok_iff, discover_eq_error_iff, discover_eq_error_iff,
    formulas_eq_slices, formulas_eq_slices, ← hspans]
  by_cases hnil : formulaPattern.spans a = []
  · simp [hnil]
  · simp [hnil]

/-- A bare die is cut like one of an empty count, but a count has a digit. -/
theorem alike_terms (mode : Mode) :
    List.Forall₂ Term.Alike (mode.terms (lex a)) (mode.terms (lex b)) := by
  have h := alike_pieces mode.blind_dicePattern alike
  rw [finds_dicePattern, finds_dicePattern, List.forall₂_map_left_iff,
    List.forall₂_map_right_iff] at h
  exact forall₂_imp_of_mem h fun t ht u hu =>
    Term.alike_of_pieces (mode.count_ne_nil ht) (mode.count_ne_nil hu)

theorem alike_constants :
    List.Forall₂ AlikeTexts (constantTerms (lex a)) (constantTerms (lex b)) := by
  have h := alike_pieces blind_constantPattern alike
  rw [finds_constantPattern, finds_constantPattern, List.forall₂_map_left_iff,
    List.forall₂_map_right_iff] at h
  exact h.imp fun _ _ hd => (List.forall₂_cons.1 hd).1

end

/-! ## What is read -/

namespace Term.Alike

variable {t u : Term}

theorem text (h : t.Alike u) : AlikeTexts t.text u.text := by
  obtain ⟨count, letter, sides⟩ := t
  obtain ⟨count', letter', sides'⟩ := u
  obtain ⟨hcount, hletter, hsides⟩ := h
  have hdie : AlikeTexts (letter :: sides) (letter' :: sides') := .cons hletter hsides
  cases hcount with
  | none => exact hdie
  | some hcount => exact List.rel_append hcount hdie

theorem readCount?_eq (h : t.Alike u) : t.readCount? = u.readCount? := by
  obtain ⟨count, letter, sides⟩ := t
  obtain ⟨count', letter', sides'⟩ := u
  cases h.count with
  | none => rfl
  | some hcount => exact Numeral.read?_eq_of_alike hcount

theorem check_eq (h : t.Alike u) (mode : Mode) : t.check mode = u.check mode := by
  rw [check, h.readCount?_eq, Numeral.read?_eq_of_alike h.sides, check]

theorem read (h : t.Alike u) (mode : Mode) : OutcomesAlike (t.read mode) (u.read mode) := by
  rw [Term.read, Term.read, h.check_eq]
  cases u.check mode with
  | ok d => exact .ok d
  | error reason => exact .error (.malformed reason h.text)

end Term.Alike

theorem alike_readConstant {ds es : List Char} (h : AlikeTexts ds es) :
    OutcomesAlike (readConstant ds) (readConstant es) := by
  rw [readConstant, readConstant, Numeral.read?_eq_of_alike h]
  cases Numeral.read? es with
  | some n => exact .ok (n : Int)
  | none => exact .error (.malformed .tooLong h)

/-- `a` and `b` are read as the same dice and constants, or refused for the same reason. -/
theorem Formula.alike_read {a b : List Char} (alike : AlikeTexts a b) (mode : Mode) :
    OutcomesAlike (read mode a) (read mode b) := by
  have hdice := OutcomesAlike.mapM ((alike_terms alike mode).imp fun t u h => h.read mode)
  have hconstants := OutcomesAlike.mapM ((alike_constants alike).imp fun _ _ => alike_readConstant)
  rw [read, read]
  refine hdice.bind fun dice => ?_
  cases dice with
  | nil => exact .error (.noDice alike)
  | cons d dice => exact hconstants.bind fun constants => .ok (Formula.mk (d :: dice) constants)

end DiceFormula
