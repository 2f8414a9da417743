import DiceFormula.Proofs.Formula.Discovered
import DiceFormula.Proofs.Formula.Sums

/-!
# A carriage return behind a formula

A carriage return is no blank. Where it ends a line, the formula that ends there
runs on over it (`wordFormula_append_return`). It is no part of a die, so the
dice stay as they are; but digits that it follows are no constant any more. The
average is what it was, then, unless the formula ends in a constant that counts,
which is lost (`averageOf?_append_return`, `EndsInConstant.averageOf?_eq`).
-/

namespace DiceFormula

theorem isDigit_return : isDigit '\r' = false := by decide

theorem wordFormula_append_return (w : List Char) :
    wordFormula (w ++ ['\r']) = (wordFormula w).map (· ++ ['\r']) := by
  have hahead : NoDigitAhead ['\r'] := noDigitAhead_cons isDigit_return []
  have hleads : ∀ cs, leadsDie (cs ++ ['\r']) = leadsDie cs := leadsDie_append hahead rfl
  induction w using cutInduction with
  | nil => rw [List.nil_append, wordFormula_single isDigit_return]; rfl
  | single c cs hc ih =>
    have hword := hleads (c :: cs)
    rw [List.cons_append] at hword ⊢
    rw [wordFormula_single hc, wordFormula_single hc, hword, ih]
    split <;> rfl
  | number digits cs ne all hcs ih =>
    rw [List.append_assoc, wordFormula_number all (noDigitAhead_append hcs hahead),
      wordFormula_number all hcs, hleads, ih]
    split
    · rw [Option.map_some, List.append_assoc]
    · rfl

/-! ## Terms -/

/-- A text has no plus sign, or is split by the last one. -/
theorem plus_cases (text : List Char) :
    (∀ c ∈ text, (c == '+') = false) ∨
      ∃ g s, text = g ++ '+' :: s ∧ ∀ c ∈ s, (c == '+') = false := by
  induction text using segmentInduction with
  | segment w hw => exact .inl hw
  | more w rest hw ih =>
    rcases ih with hrest | ⟨g, s, rfl, hs⟩
    · exact .inr ⟨w, rest, rfl, hrest⟩
    · exact .inr ⟨w ++ '+' :: g, s, by simp, hs⟩

theorem isNumeral_append_return (s : List Char) : isNumeral (s ++ ['\r']) = false := by
  simp [isNumeral, isDigit_return]

section

variable {s : List Char}

theorem not_mem_of_isNumeral (h : isNumeral s = true) {c : Char} (hc : isDigit c = false) :
    c ∉ s := by
  intro hmem
  rw [List.all_eq_true.1 (Bool.and_eq_true_iff.1 h).2 c hmem] at hc
  cases hc

theorem no_plus_of_isNumeral (h : isNumeral s = true) : ∀ c ∈ s, (c == '+') = false :=
  beq_eq_false_of_not_mem (not_mem_of_isNumeral h isDigit_plus)

theorem Mode.terms_lex_of_isNumeral (mode : Mode) (h : isNumeral s = true) :
    mode.terms (lex s) = [] := by
  obtain ⟨hne, hall⟩ := Bool.and_eq_true_iff.1 h
  have hlex := lex_number (by simpa using hne) (List.all_eq_true.1 hall) noDigitAhead_nil
  rw [List.append_nil] at hlex
  rw [hlex]
  cases mode <;> rfl

theorem Mode.terms_lex_append_return (mode : Mode) (f : List Char) :
    mode.terms (lex (f ++ ['\r'])) = mode.terms (lex f) := by
  rw [lex_append_single f isDigit_return, mode.terms_append rfl]
  cases mode <;> exact List.append_nil _

end

section

variable {g s : List Char} (noPlus : ∀ c ∈ s, (c == '+') = false) (hg : '\n' ∉ g) (hs : '\n' ∉ s)

include noPlus hg hs

/-- The last segment `s` is a constant if it is a numeral. -/
theorem constantTerms_append_segment :
    constantTerms (lex (g ++ '+' :: s)) = constantTerms (lex g) ++ [s].filter isNumeral := by
  have hunbroken : '\n' ∉ g ++ '+' :: s := by simp [hg, hs]
  rw [constantTerms_unbroken hunbroken, constantTerms_unbroken hg, segments_append_plus,
    List.tail_append_of_ne_nil (segments_ne_nil g), segments_of_no_plus noPlus,
    List.filter_append]

/-- A carriage return takes the last constant away. -/
theorem constantTerms_append_segment_return :
    constantTerms (lex (g ++ '+' :: s ++ ['\r'])) = constantTerms (lex g) := by
  have hsegment : ∀ c ∈ s ++ ['\r'], (c == '+') = false :=
    List.forall_mem_append.2 ⟨noPlus, List.forall_mem_singleton.2 rfl⟩
  have hbreak : '\n' ∉ s ++ ['\r'] := by simp [hs]
  rw [List.append_assoc, List.cons_append, constantTerms_append_segment hsegment hg hbreak,
    List.filter_cons_of_neg (by rw [isNumeral_append_return]; decide)]
  exact List.append_nil _

end

theorem constantTerms_of_no_plus {f : List Char} (noPlus : ∀ c ∈ f, (c == '+') = false) :
    constantTerms (lex f) = [] := by
  have h := constantTerms_append noPlus []
  rwa [List.append_nil] at h

/-! ## Readings -/

namespace Formula

variable {mode : Mode} {f g s digits : List Char}

/-- Only a text without dice is named in what is wrong with it. -/
theorem read_congr (hterms : mode.terms (lex f) = mode.terms (lex g))
    (ne : mode.terms (lex g) ≠ []) (hconstants : constantTerms (lex f) = constantTerms (lex g)) :
    read mode f = read mode g := by
  rw [read_eq, read_eq, hterms, hconstants]
  rcases h : (mode.terms (lex g)).mapM (Term.read mode) with e | _ | ⟨d, dice⟩
  · rfl
  · exact absurd (List.forall₂_nil_right_iff.1 (mapM_eq_ok_iff.1 h)) ne
  · rfl

theorem terms_ne_nil_of_read {F : Formula} (h : read mode f = .ok F) :
    mode.terms (lex f) ≠ [] := by
  obtain ⟨hdice, hne, -⟩ := read_eq_ok_iff.1 h
  intro hnil
  rw [hnil] at hdice
  exact hne (List.forall₂_nil_left_iff.1 hdice)

section

variable (numeral : isNumeral digits = true) (hg : '\n' ∉ g) (ne : mode.terms (lex g) ≠ [])

include numeral

theorem terms_append_constant : mode.terms (lex (g ++ '+' :: digits)) = mode.terms (lex g) := by
  rw [mode.terms_lex_append_plus, mode.terms_lex_of_isNumeral numeral, List.append_nil]

include hg ne

/-- A constant that ends a formula is read when all the rest has been. -/
theorem read_append_constant :
    read mode (g ++ '+' :: digits) =
      read mode g >>= fun F => (readConstant digits).map fun n => F.add ⟨[], [n]⟩ := by
  have hbreak := not_mem_of_isNumeral numeral (c := '\n') (by decide)
  have hconstants := constantTerms_append_segment (no_plus_of_isNumeral numeral) hg hbreak
  rw [List.filter_cons_of_pos numeral, List.filter_nil] at hconstants
  rw [read_eq, read_eq, terms_append_constant numeral, hconstants, List.mapM_append]
  rcases h : (mode.terms (lex g)).mapM (Term.read mode) with e | _ | ⟨d, dice⟩
  · rfl
  · exact absurd (List.forall₂_nil_right_iff.1 (mapM_eq_ok_iff.1 h)) ne
  · rw [List.mapM_cons, List.mapM_nil]
    cases (constantTerms (lex g)).mapM readConstant with
    | error e => rfl
    | ok constants =>
      cases readConstant digits with
      | error e => rfl
      | ok n =>
        have hadd : (⟨d :: dice, constants⟩ : Formula).add ⟨[], [n]⟩ =
            ⟨d :: dice, constants ++ [n]⟩ := by rw [add, List.append_nil]
        exact congrArg Except.ok hadd.symm

theorem read_append_constant_return :
    read mode (g ++ '+' :: digits ++ ['\r']) = read mode g := by
  have hbreak := not_mem_of_isNumeral numeral (c := '\n') (by decide)
  have hconstants :=
    constantTerms_append_segment_return (no_plus_of_isNumeral numeral) hg hbreak
  refine read_congr ?_ ne hconstants
  rw [mode.terms_lex_append_return, terms_append_constant numeral]

end

/-- A carriage return makes no difference to `f` unless it ends in a numeral behind a plus sign. -/
theorem read_append_return (unbroken : '\n' ∉ f) (ne : mode.terms (lex f) ≠ [])
    (last : ∀ g s, f = g ++ '+' :: s → isNumeral s = false) :
    read mode (f ++ ['\r']) = read mode f := by
  refine read_congr (mode.terms_lex_append_return f) ne ?_
  rcases plus_cases f with hf | ⟨g, s, rfl, hs⟩
  · have hreturn : ∀ c ∈ f ++ ['\r'], (c == '+') = false :=
      List.forall_mem_append.2 ⟨hf, List.forall_mem_singleton.2 rfl⟩
    rw [constantTerms_of_no_plus hreturn, constantTerms_of_no_plus hf]
  · have hg : '\n' ∉ g := fun h => unbroken (List.mem_append_left _ h)
    have hbreak : '\n' ∉ s := fun h =>
      unbroken (List.mem_append_right g (List.mem_cons_of_mem '+' h))
    rw [constantTerms_append_segment_return hs hg hbreak, constantTerms_append_segment hs hg hbreak,
      List.filter_cons_of_neg (by rw [last g s rfl]; decide)]
    exact (List.append_nil _).symm

/-! ## Averages -/

def averageOf? (text : List Char) : Option Int :=
  ((read .average text).map average).toOption

/-- `f` is read as `F` but for the constant `digits` that ends it, which is other than zero or too
long to be read. -/
structure EndsInConstant (f : List Char) (F : Formula) (digits : List Char) : Prop where
  numeral : isNumeral digits = true
  counts : Numeral.read? digits ≠ some 0
  read : ∃ g, f = g ++ '+' :: digits ∧ Formula.read .average g = .ok F

theorem average_add_constant (F : Formula) (n : Int) :
    (F.add ⟨[], [n]⟩).average = F.average + n := by
  rw [average_add]
  simp [average]

variable {F : Formula}

/-- The constant is added to what is read before it, and is not there for a carriage return. -/
theorem EndsInConstant.averageOf?_eq (h : EndsInConstant f F digits) (unbroken : '\n' ∉ f) :
    averageOf? f = (Numeral.read? digits).map (fun n : Nat => F.average + n) ∧
      averageOf? (f ++ ['\r']) = some F.average := by
  obtain ⟨g, rfl, hread⟩ := h.read
  have hg : '\n' ∉ g := fun hmem => unbroken (List.mem_append_left _ hmem)
  have hne := terms_ne_nil_of_read hread
  refine ⟨?_, ?_⟩
  · rw [averageOf?, read_append_constant h.numeral hg hne, hread, readConstant]
    cases Numeral.read? digits with
    | none => rfl
    | some n => exact congrArg some (F.average_add_constant n)
  · rw [averageOf?, read_append_constant_return h.numeral hg hne, hread]
    rfl

theorem averageOf?_append_return (unbroken : '\n' ∉ f) (ne : diceTerms (lex f) ≠ [])
    (h : ∀ F digits, ¬ EndsInConstant f F digits) : averageOf? (f ++ ['\r']) = averageOf? f := by
  by_cases hlast : ∃ g s, f = g ++ '+' :: s ∧ isNumeral s = true
  · obtain ⟨g, s, rfl, hs⟩ := hlast
    have hg : '\n' ∉ g := fun hmem => unbroken (List.mem_append_left _ hmem)
    have hne : Mode.average.terms (lex g) ≠ [] := by rwa [← terms_append_constant hs]
    rw [averageOf?, averageOf?, read_append_constant_return hs hg hne,
      read_append_constant hs hg hne]
    cases hread : Formula.read .average g with
    | error e => rfl
    | ok F =>
      have hzero : Numeral.read? s = some 0 := by
        by_contra hcounts
        exact h F s ⟨hs, hcounts, g, rfl, hread⟩
      have hsame : F.average = (F.add ⟨[], [0]⟩).average := by
        rw [average_add_constant, Int.add_zero]
      rw [readConstant, hzero]
      exact congrArg some hsame
  · have hnot : ∀ g s, f = g ++ '+' :: s → isNumeral s = false := fun g s hf =>
      eq_false_of_ne_true fun hs => hlast ⟨g, s, hf, hs⟩
    have hread : Formula.read .average (f ++ ['\r']) = Formula.read .average f :=
      read_append_return unbroken ne hnot
    rw [averageOf?, hread]
    rfl

end Formula

end DiceFormula
