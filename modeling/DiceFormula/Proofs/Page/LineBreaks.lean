import DiceFormula.Proofs.Formula.Returns
import DiceFormula.Proofs.Page.Joining

/-!
# Line breaks with carriage returns

A line feed ends a formula, and a carriage return does not. Where both end the
lines of a text, the formula that ends a line has the carriage return behind it;
all other formulas are the same (`exists_endings`). An average page has the same
totals for such a text just when none of its lines ends in a constant that
counts, which the carriage return takes away (`entries_withReturns`).
-/

namespace DiceFormula

/-- `text` with a carriage return before every line feed. -/
def withReturns (text : List Char) : List Char :=
  text.flatMap fun c => if c = '\n' then ['\r', '\n'] else [c]

/-- The formulas that a line feed ends. -/
def lineEnds (text : List Char) : List (List Char) :=
  (text.splitOn '\n').dropLast.filterMap fun line => wordFormula (line.rtakeWhile (· != ' '))

/-! ## Lines -/

theorem withReturns_append (a b : List Char) :
    withReturns (a ++ b) = withReturns a ++ withReturns b :=
  List.flatMap_append

theorem withReturns_of_no_break {w : List Char} (h : '\n' ∉ w) : withReturns w = w := by
  induction w with
  | nil => rfl
  | cons c w ih =>
    obtain ⟨hc, hw⟩ := not_or.1 fun hmem => h (List.mem_cons.2 hmem)
    rw [withReturns, List.flatMap_cons, if_neg (Ne.symm hc)]
    exact congrArg (c :: ·) (ih hw)

theorem lineEnds_of_no_break {w : List Char} (h : '\n' ∉ w) : lineEnds w = [] := by
  have hlines : w.splitOn '\n' = [w] := List.splitOnP_eq_singleton (beq_eq_false_of_not_mem h)
  rw [lineEnds, hlines]
  rfl

theorem lineEnds_append_break {line : List Char} (h : '\n' ∉ line) (rest : List Char) :
    lineEnds (line ++ '\n' :: rest) =
      (wordFormula (line.rtakeWhile (· != ' '))).toList ++ lineEnds rest := by
  have hcut : (line ++ '\n' :: rest).splitOn '\n' = line.splitOn '\n' ++ rest.splitOn '\n' :=
    List.splitOnP_append_cons line rest rfl
  have hline : line.splitOn '\n' = [line] := List.splitOnP_eq_singleton (beq_eq_false_of_not_mem h)
  have hne : rest.splitOn '\n' ≠ [] := List.splitOnP_ne_nil _ rest
  rw [lineEnds, hcut, hline, List.dropLast_append_of_ne_nil hne]
  cases hword : wordFormula (line.rtakeWhile (· != ' ')) <;> simp [hword, lineEnds]

theorem lineEnds_append_space {w : List Char} (h : '\n' ∉ w) (rest : List Char) :
    lineEnds (w ++ ' ' :: rest) = lineEnds rest := by
  rcases split_cases (· == '\n') rest with hrest | ⟨line, c, more, rfl, hline, hc⟩
  · have hbreak : '\n' ∉ rest := fun hmem => by cases hrest '\n' hmem
    rw [lineEnds_of_no_break hbreak, lineEnds_of_no_break (by simp [h, hbreak])]
  · obtain rfl : c = '\n' := beq_iff_eq.1 hc
    have hbreak : '\n' ∉ line := fun hmem => by cases hline '\n' hmem
    have hlonger : '\n' ∉ w ++ ' ' :: line := by simp [h, hbreak]
    have hwhole : w ++ ' ' :: (line ++ '\n' :: more) = (w ++ ' ' :: line) ++ '\n' :: more := by simp
    rw [hwhole, lineEnds_append_break hlonger, lineEnds_append_break hbreak,
      rtakeWhile_append_cons w rfl]

/-! ## Formulas -/

theorem formulas_of_no_blank {w : List Char} (h : ∀ c ∈ w, isBlank c = false) :
    formulas w = (wordFormula w).toList := by
  rw [formulas_eq_words, filterMap_words_of_no_blank h]

/-- The formulas of `text`, each with whether a line feed ends it. Just these take a carriage
return. -/
structure Endings (text : List Char) (endings : List (List Char × Bool)) : Prop where
  formulas_eq : formulas text = endings.map Prod.fst
  returns_eq : formulas (withReturns text) =
    endings.map fun x => if x.2 then x.1 ++ ['\r'] else x.1
  lineEnds_eq : lineEnds text = (endings.filter Prod.snd).map Prod.fst

theorem exists_endings (text : List Char) : ∃ endings, Endings text endings := by
  induction text using wordInduction with
  | word w hw =>
    have hbreak : '\n' ∉ w := fun hmem => by cases hw '\n' hmem
    refine ⟨(wordFormula w).toList.map (·, false), ?_, ?_, ?_⟩
    · rw [formulas_of_no_blank hw, List.map_map]
      exact (List.map_id _).symm
    · rw [withReturns_of_no_break hbreak, formulas_of_no_blank hw, List.map_map]
      exact (List.map_id _).symm
    · rw [lineEnds_of_no_break hbreak]
      cases wordFormula w <;> rfl
  | more w c rest hw hc ih =>
    obtain ⟨endings, h⟩ := ih
    have hbreak : '\n' ∉ w := fun hmem => by cases hw '\n' hmem
    simp only [isBlank, Bool.or_eq_true, beq_iff_eq] at hc
    obtain rfl | rfl := hc
    · have htext : withReturns (w ++ ' ' :: rest) = w ++ ' ' :: withReturns rest := by
        rw [withReturns_append, withReturns_of_no_break hbreak]
        rfl
      refine ⟨(wordFormula w).toList.map (·, false) ++ endings, ?_, ?_, ?_⟩
      · rw [formulas_append_blank w rfl, formulas_of_no_blank hw, h.formulas_eq]
        cases wordFormula w <;> rfl
      · rw [htext, formulas_append_blank w rfl, formulas_of_no_blank hw, h.returns_eq]
        cases wordFormula w <;> rfl
      · rw [lineEnds_append_space hbreak, h.lineEnds_eq]
        cases wordFormula w <;> rfl
    · have htext : withReturns (w ++ '\n' :: rest) =
          (w ++ ['\r']) ++ '\n' :: withReturns rest := by
        rw [withReturns_append, withReturns_of_no_break hbreak]
        simp [withReturns]
      have hreturn : ∀ c ∈ w ++ ['\r'], isBlank c = false :=
        List.forall_mem_append.2 ⟨hw, List.forall_mem_singleton.2 rfl⟩
      refine ⟨(wordFormula w).toList.map (·, true) ++ endings, ?_, ?_, ?_⟩
      · rw [formulas_append_blank w rfl, formulas_of_no_blank hw, h.formulas_eq]
        cases wordFormula w <;> rfl
      · rw [htext, formulas_append_blank _ rfl, formulas_of_no_blank hreturn,
          wordFormula_append_return, h.returns_eq]
        cases wordFormula w <;> rfl
      · have hlast : w.rtakeWhile (· != ' ') = w := by
          refine List.rtakeWhile_eq_self_iff.2 fun c hmem => ?_
          have hspace := (Bool.or_eq_false_iff.1 (hw c hmem)).1
          rw [bne, hspace]
          rfl
        rw [lineEnds_append_break hbreak, hlast, h.lineEnds_eq]
        cases wordFormula w <;> rfl

section

variable {text : List Char} {endings : List (List Char × Bool)} (h : Endings text endings)

include h

theorem Endings.mem_formulas {x : List Char × Bool} (hx : x ∈ endings) : x.1 ∈ formulas text := by
  rw [h.formulas_eq]
  exact List.mem_map_of_mem hx

theorem Endings.formulas_eq_nil_iff : formulas (withReturns text) = [] ↔ formulas text = [] := by
  rw [h.formulas_eq, h.returns_eq, List.map_eq_nil_iff, List.map_eq_nil_iff]

theorem Endings.mem_lineEnds_iff {f : List Char} : f ∈ lineEnds text ↔ (f, true) ∈ endings := by
  rw [h.lineEnds_eq]
  simp

end

/-! ## Entries -/

def Entry.outcome (e : Entry) : Option Int × Bool := (e.total, e.ok)

/-- How the entry of a formula changes with the line breaks; `ends` are the formulas that end a
line. -/
inductive Returned (ends : List (List Char)) : Entry → Entry → Prop
  | same (e : Entry) : Returned ends e e
  | kept {e e' : Entry} (mem : e.formula ∈ ends) (formula : e'.formula = e.formula ++ ['\r'])
      (outcome : e'.outcome = e.outcome) : Returned ends e e'
  /-- The constant that ends the formula is gone, also where it could not be read. -/
  | lost {e e' : Entry} {F : Formula} {digits : List Char} (mem : e.formula ∈ ends)
      (formula : e'.formula = e.formula ++ ['\r'])
      (constant : F.EndsInConstant e.formula digits)
      (before : e.outcome =
        ((Numeral.read? digits).map fun n : Nat => F.average + n, (Numeral.read? digits).isSome))
      (after : e'.outcome = (some F.average, true)) : Returned ends e e'

namespace Page

open Formula Roll

theorem formula_averageEntry (f : List Char) : (averageEntry f).formula = f := by
  unfold averageEntry
  cases (Formula.read .average f).map Formula.average <;> rfl

theorem outcome_averageEntry (f : List Char) :
    (averageEntry f).outcome = (averageOf? f, (averageOf? f).isSome) := by
  unfold averageEntry averageOf?
  cases (Formula.read .average f).map Formula.average <;> rfl

section

variable {text f : List Char} (found : f ∈ formulas text)

include found

theorem returned_averageEntry {ends : List (List Char)} (mem : f ∈ ends) :
    Returned ends (averageEntry f) (averageEntry (f ++ ['\r'])) := by
  have hbreak : '\n' ∉ f := blank_not_mem_of_mem_formulas found rfl
  have hmem : (averageEntry f).formula ∈ ends := by rwa [formula_averageEntry]
  have hformula : (averageEntry (f ++ ['\r'])).formula = (averageEntry f).formula ++ ['\r'] := by
    rw [formula_averageEntry, formula_averageEntry]
  by_cases h : ∃ F digits, EndsInConstant f F digits
  · obtain ⟨F, digits, hconstant⟩ := h
    obtain ⟨hbefore, hafter⟩ := hconstant.averageOf?_eq hbreak
    refine .lost hmem hformula ((formula_averageEntry f).symm ▸ hconstant) ?_ ?_
    · rw [outcome_averageEntry, hbefore, Option.isSome_map]
    · rw [outcome_averageEntry, hafter]
      rfl
  · refine .kept hmem hformula ?_
    rw [outcome_averageEntry, outcome_averageEntry,
      averageOf?_append_return hbreak (diceTerms_ne_nil found) fun F digits hc => h ⟨F, digits, hc⟩]

theorem outcome_append_return_eq_iff :
    (averageEntry (f ++ ['\r'])).outcome = (averageEntry f).outcome ↔
      ∀ F digits, ¬ EndsInConstant f F digits := by
  have hbreak : '\n' ∉ f := blank_not_mem_of_mem_formulas found rfl
  rw [outcome_averageEntry, outcome_averageEntry]
  constructor
  · intro heq F digits hconstant
    obtain ⟨hbefore, hafter⟩ := hconstant.averageOf?_eq hbreak
    have htotal := (Prod.mk.inj heq).1
    rw [hbefore, hafter] at htotal
    cases hread : Numeral.read? digits with
    | none => rw [hread] at htotal; cases htotal
    | some n =>
      rw [hread] at htotal
      have hsum : F.average = F.average + n := Option.some.inj htotal
      exact hconstant.counts (by rw [hread]; congr 1; omega)
  · intro h
    rw [averageOf?_append_return hbreak (diceTerms_ne_nil found) h]

end

section

variable {text : List Char} {endings : List (List Char × Bool)} (h : Endings text endings)

include h

theorem forall₂_returned :
    List.Forall₂ (Returned (lineEnds text)) ((formulas text).map averageEntry)
      ((formulas (withReturns text)).map averageEntry) := by
  simp only [h.formulas_eq, h.returns_eq, List.map_map, List.forall₂_map_left_iff,
    List.forall₂_map_right_iff]
  refine List.forall₂_same.2 ?_
  rintro ⟨f, ended⟩ hx
  cases ended with
  | false => exact .same _
  | true => exact returned_averageEntry (h.mem_formulas hx) (h.mem_lineEnds_iff.2 hx)

theorem map_outcome_eq_iff :
    ((formulas (withReturns text)).map averageEntry).map Entry.outcome =
        ((formulas text).map averageEntry).map Entry.outcome ↔
      ∀ f ∈ lineEnds text, ∀ F digits, ¬ EndsInConstant f F digits := by
  simp only [h.formulas_eq, h.returns_eq, List.map_map, List.map_inj_left]
  constructor
  · intro hall f hf
    have hx := h.mem_lineEnds_iff.1 hf
    exact (outcome_append_return_eq_iff (h.mem_formulas hx)).1 (hall _ hx)
  · rintro hnone ⟨f, ended⟩ hx
    cases ended with
    | false => rfl
    | true =>
      have hends := hnone f (h.mem_lineEnds_iff.2 hx)
      exact (outcome_append_return_eq_iff (h.mem_formulas hx)).2 hends

end

/-- The entries of `page'` are those of `page` but for the carriage return behind the `lineEnds`,
which takes the constant that ends one of them. So all totals and errors are the same just when no
line `EndsInConstant`. -/
theorem entries_withReturns (text : List Char) (bytes : List Byte) :
    let page := entries .average text
    let page' := entries .average (withReturns text)
    (formulas text = [] ∧ (page.run bytes).result = .error (.refused .noFormula) ∧
        (page'.run bytes).result = .error (.refused .noFormula)) ∨
      ∃ es es', page.Gives bytes es bytes ∧ page'.Gives bytes es' bytes ∧
        es.map Entry.formula = formulas text ∧ es'.length = es.length ∧
        List.Forall₂ (Returned (lineEnds text)) es es' ∧
        (es'.map Entry.outcome = es.map Entry.outcome ↔
          ∀ f ∈ lineEnds text, ∀ F digits, ¬ EndsInConstant f F digits) := by
  intro page page'
  obtain ⟨endings, h⟩ := exists_endings text
  by_cases hnil : formulas text = []
  · have hnil' := h.formulas_eq_nil_iff.2 hnil
    exact .inl ⟨hnil, (noFormula_iff bytes).2 hnil, (noFormula_iff bytes).2 hnil'⟩
  · have hfound := discover_eq_ok_iff.2 ⟨rfl, hnil⟩
    have hfound' := discover_eq_ok_iff.2 ⟨rfl, mt h.formulas_eq_nil_iff.1 hnil⟩
    have hentries : ((formulas text).map averageEntry).map Entry.formula = formulas text := by
      rw [List.map_map]
      exact List.map_id'' formula_averageEntry _
    have hreturned := forall₂_returned h
    exact .inr ⟨_, _, gives_entries_average hfound bytes, gives_entries_average hfound' bytes,
      hentries, hreturned.length_eq.symm, hreturned, map_outcome_eq_iff h⟩

/-- The first line ends in a constant, which carriage returns take from it. -/
theorem entries_withReturns_constant :
    let text := ['1', 'd', '6', '+', '2', '\n', '1', 'd', '6']
    '\r' ∉ text ∧
      withReturns text = ['1', 'd', '6', '+', '2', '\r', '\n', '1', 'd', '6'] ∧
      ((entries .average text).run []).result.map (List.map Entry.outcome) =
        .ok [(some 6, true), (some 4, true)] ∧
      ((entries .average (withReturns text)).run []).result.map (List.map Entry.outcome) =
        .ok [(some 4, true), (some 4, true)] := by
  decide +kernel

end Page

end DiceFormula
