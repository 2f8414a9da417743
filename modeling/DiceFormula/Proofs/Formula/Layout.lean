import DiceFormula.Proofs.Formula.Words

/-!
# Layouts

A layout writes texts one after the other, with blanks between them and, if any,
in front and behind. Texts that hold no blank are its words, whatever the blanks
are (`Layout.words_text`). The formulas of a text are such texts, and each is its
own formula, so they are found again in every layout of them
(`Layout.discover_text`).
-/

namespace DiceFormula

/-- Texts, each with the blanks behind it, and the blanks in front of all. At least one blank sets
two texts apart. -/
structure Layout where
  lead : List Char
  parts : List (List Char × List Char)
  lead_blank : ∀ c ∈ lead, isBlank c = true
  gaps_blank : ∀ p ∈ parts, ∀ c ∈ p.2, isBlank c = true
  apart : ∀ p ∈ parts.dropLast, p.2 ≠ []

namespace Layout

def texts (l : Layout) : List (List Char) := l.parts.map Prod.fst

def text (l : Layout) : List Char := l.lead ++ l.parts.flatMap fun p => p.1 ++ p.2

end Layout

theorem words_blanks_append {blanks : List Char} (h : ∀ c ∈ blanks, isBlank c = true)
    (text : List Char) : words (blanks ++ text) = words text := by
  induction blanks with
  | nil => rfl
  | cons c blanks ih =>
    obtain ⟨hc, hblanks⟩ := List.forall_mem_cons.1 h
    have hsplit := words_append_blank [] hc (blanks ++ text)
    rw [words_nil, List.nil_append, List.nil_append] at hsplit
    rw [List.cons_append, hsplit, ih hblanks]

theorem words_parts {parts : List (List Char × List Char)}
    (solid : ∀ p ∈ parts, p.1 ≠ [] ∧ ∀ c ∈ p.1, isBlank c = false)
    (blank : ∀ p ∈ parts, ∀ c ∈ p.2, isBlank c = true) (apart : ∀ p ∈ parts.dropLast, p.2 ≠ []) :
    words (parts.flatMap fun p => p.1 ++ p.2) = parts.map Prod.fst := by
  induction parts with
  | nil => exact words_nil
  | cons p parts ih =>
    obtain ⟨f, gap⟩ := p
    obtain ⟨⟨hne, hf⟩, hsolid⟩ := List.forall_mem_cons.1 solid
    obtain ⟨hgap, hblank⟩ := List.forall_mem_cons.1 blank
    rw [List.flatMap_cons, List.map_cons]
    cases gap with
    | nil =>
      -- only the last text may have no blank behind it
      have hlast : parts = [] := by
        by_contra hparts
        rw [List.dropLast_cons_of_ne_nil hparts] at apart
        exact apart _ List.mem_cons_self rfl
      subst hlast
      simpa using words_of_no_blank hne hf
    | cons c gap =>
      obtain ⟨hc, hgap⟩ := List.forall_mem_cons.1 hgap
      have hlater : ∀ p ∈ parts.dropLast, p.2 ≠ [] := by
        intro p hp
        have hparts : parts ≠ [] := List.ne_nil_of_mem (List.mem_of_mem_dropLast hp)
        rw [List.dropLast_cons_of_ne_nil hparts] at apart
        exact apart p (List.mem_cons_of_mem _ hp)
      rw [List.append_assoc, List.cons_append, words_append_blank f hc, words_of_no_blank hne hf,
        words_blanks_append hgap, ih hsolid hblank hlater]
      rfl

namespace Layout

/-- The words of a layout are its `texts`, if there are no blanks in these. -/
theorem words_text {l : Layout} (h : ∀ f ∈ l.texts, f ≠ [] ∧ ∀ c ∈ f, isBlank c = false) :
    words l.text = l.texts := by
  have hsolid : ∀ p ∈ l.parts, p.1 ≠ [] ∧ ∀ c ∈ p.1, isBlank c = false := fun p hp =>
    h p.1 (List.mem_map_of_mem hp)
  rw [text, words_blanks_append l.lead_blank, words_parts hsolid l.gaps_blank l.apart]
  rfl

/-- The formulas found in `text` are found again, and no others, in every `Layout` of them. -/
theorem discover_text {text : List Char} {l : Layout} (found : discover text = .ok l.texts) :
    discover l.text = .ok l.texts := by
  obtain ⟨hformulas, hne⟩ := discover_eq_ok_iff.1 found
  have hmem : ∀ f ∈ l.texts, f ∈ formulas text := fun f hf => hformulas ▸ hf
  exact discover_eq_ok_iff.2 ⟨formulas_of_words_eq hmem words_text, hne⟩

/-- Two formulas, the first of which loses the letters in front of it, on lines of their own. -/
theorem discover_text_lines :
    let text := ['a', 'd', '6', 'x', ' ', 'd', ' ', '1', 'd', '4', '+', '2']
    let l : Layout :=
      { lead := ['\n']
        parts := [(['d', '6', 'x'], ['\n', ' ', '\n']), (['1', 'd', '4', '+', '2'], ['\n'])]
        lead_blank := List.forall_mem_singleton.2 rfl
        gaps_blank := by simp [isBlank]
        apart := by decide }
    discover text = .ok l.texts ∧
      l.text =
        ['\n', 'd', '6', 'x', '\n', ' ', '\n', '1', 'd', '4', '+', '2', '\n'] ∧
      discover l.text = .ok l.texts := by
  intro text l
  have hfound : discover text = .ok l.texts := by decide +kernel
  exact ⟨hfound, rfl, discover_text hfound⟩

end Layout

end DiceFormula
