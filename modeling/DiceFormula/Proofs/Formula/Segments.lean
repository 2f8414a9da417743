import DiceFormula.Proofs.Formula.Spans
import Mathlib.Data.List.ModifyLast

/-!
# Constants as segments

The constants of a text, said of its characters. The plus signs cut the text
into segments; the constants are the segments behind the first that are made of
digits and of nothing else, where a line feed at the very end is left out of
account (`constants_eq_segments`).
-/

namespace DiceFormula

def segments (text : List Char) : List (List Char) := text.splitOn '+'

/-- One or more digits and nothing else. -/
def isNumeral (s : List Char) : Bool := !s.isEmpty && s.all isDigit

/-- `s` without the line feed that ends it. -/
def chomp (s : List Char) : List Char := if s.getLast? = some '\n' then s.dropLast else s

/-! ## Segments -/

theorem segments_of_no_plus {w : List Char} (h : ∀ c ∈ w, (c == '+') = false) :
    segments w = [w] :=
  List.splitOnP_eq_singleton h

theorem segments_append {w : List Char} (h : ∀ c ∈ w, (c == '+') = false) (rest : List Char) :
    segments (w ++ '+' :: rest) = w :: segments rest := by
  have hsplit : segments (w ++ '+' :: rest) = segments w ++ segments rest :=
    List.splitOnP_append_cons w rest rfl
  rw [hsplit, segments_of_no_plus h]
  rfl

theorem segments_ne_nil (text : List Char) : segments text ≠ [] :=
  List.splitOnP_ne_nil _ text

/-- Induction on a text by its segments, each with the plus sign behind it. -/
@[elab_as_elim] theorem segmentInduction {motive : List Char → Prop} (text : List Char)
    (segment : ∀ w, (∀ c ∈ w, (c == '+') = false) → motive w)
    (more : ∀ w rest, (∀ c ∈ w, (c == '+') = false) → motive rest →
      motive (w ++ '+' :: rest)) : motive text := by
  refine partInduction (· == '+') text segment fun w c rest hw hc ih => ?_
  obtain rfl : c = '+' := beq_iff_eq.1 hc
  exact more w rest hw ih

/-! ## Numerals -/

section

variable {digits cs : List Char} (all : ∀ c ∈ digits, isDigit c = true)

include all

theorem filter_isNumeral_append (ahead : NoDigitAhead cs) :
    [digits ++ cs].filter isNumeral = if digits ≠ [] ∧ cs = [] then [digits] else [] := by
  cases cs with
  | cons c cs =>
    have hc : isDigit c = false := ahead c rfl
    simp [isNumeral, hc]
  | nil =>
    have hnumeral : isNumeral digits = !digits.isEmpty := by simpa [isNumeral] using fun _ => all
    cases digits <;> simp [hnumeral]

theorem chomp_digits_append (cs : List Char) : chomp (digits ++ cs) = digits ++ chomp cs := by
  unfold chomp
  cases cs with
  | nil =>
    rw [List.append_nil, if_neg, if_neg]
    · exact (List.append_nil digits).symm
    · exact fun h => by cases h
    · intro h
      have hn := all _ (List.mem_of_getLast? h)
      revert hn
      decide
  | cons c cs =>
    have hne : c :: cs ≠ [] := List.cons_ne_nil c cs
    rw [List.getLast?_append_of_ne_nil digits hne, List.dropLast_append_of_ne_nil hne]
    split <;> rfl

end

theorem chomp_eq_nil_iff {cs : List Char} : chomp cs = [] ↔ cs = [] ∨ cs = ['\n'] := by
  unfold chomp
  split
  · rename_i h
    obtain ⟨w, rfl⟩ := List.getLast?_eq_some_iff.1 h
    rw [List.dropLast_concat]
    cases w <;> simp
  · rename_i h
    constructor
    · exact .inl
    · rintro (rfl | rfl)
      · rfl
      · exact absurd rfl h

theorem noDigitAhead_chomp {cs : List Char} (h : NoDigitAhead cs) : NoDigitAhead (chomp cs) := by
  unfold chomp
  split
  · rename_i hlast
    obtain ⟨w, rfl⟩ := List.getLast?_eq_some_iff.1 hlast
    rw [List.dropLast_concat]
    intro c hc
    cases w with
    | nil => cases hc
    | cons d w => exact h c hc
  · exact h

/-! ## Constants -/

theorem mem_of_mem_lex {w : List Char} {l : Lexeme} (h : l ∈ lex w) {c : Char}
    (hc : c ∈ l.text) : c ∈ w := by
  have hmem : c ∈ textOf (lex w) := List.mem_flatMap.2 ⟨l, h, hc⟩
  rwa [textOf_lex] at hmem

theorem constantTerms_plus {ls : List Lexeme} (h : ∀ digits rest, ls ≠ .number digits :: rest) :
    constantTerms (.plus :: ls) = constantTerms ls := by
  rcases ls with _ | ⟨l, ls⟩
  · rfl
  · cases l with
    | number digits => exact absurd rfl (h digits ls)
    | _ => rfl

theorem constantTerms_skip {ms : List Lexeme} (h : .plus ∉ ms) (ls : List Lexeme) :
    constantTerms (ms ++ ls) = constantTerms ls := by
  induction ms with
  | nil => rfl
  | cons l ms ih =>
    obtain ⟨hl, hms⟩ := not_or.1 fun hmem => h (List.mem_cons.2 hmem)
    rw [← ih hms]
    cases l with
    | plus => exact absurd rfl hl
    | _ => rfl

theorem constantTerms_append {w : List Char} (noPlus : ∀ c ∈ w, (c == '+') = false)
    (ls : List Lexeme) : constantTerms (lex w ++ ls) = constantTerms ls := by
  refine constantTerms_skip (fun h => ?_) ls
  have hplus := noPlus '+' (mem_of_mem_lex h (List.mem_singleton.2 rfl))
  exact absurd hplus (by decide)

section

variable {digits cs : List Char} (all : ∀ c ∈ digits, isDigit c = true)
  (ahead : NoDigitAhead cs) (noPlus : ∀ c ∈ cs, (c == '+') = false)

include all ahead noPlus

/-- Behind a plus sign, `digits` are a constant if they end as one does. -/
theorem constantTerms_plus_append {ls : List Lexeme}
    (hls : ∀ ds rest, ls ≠ .number ds :: rest) :
    constantTerms (.plus :: (lex (digits ++ cs) ++ ls)) =
      (if digits ≠ [] ∧ endsConstant (lex cs ++ ls) = true then [digits] else []) ++
        constantTerms ls := by
  cases digits with
  | nil =>
    have hnumber : ∀ ds rest, lex cs ++ ls ≠ .number ds :: rest := by
      intro ds rest h
      cases hl : lex cs with
      | nil => rw [hl] at h; exact hls ds rest h
      | cons l ms =>
        rw [hl] at h
        exact lex_ne_number ahead ds ms ((List.cons.inj h).1 ▸ hl)
    rw [List.nil_append, constantTerms_plus hnumber, constantTerms_append noPlus, if_neg]
    · rfl
    · exact fun h => h.1 rfl
  | cons d digits =>
    have hne := List.cons_ne_nil d digits
    rw [lex_number hne all ahead, List.cons_append, constantTerms, constantTerms_append noPlus]
    split
    · rename_i hends
      rw [if_pos ⟨hne, hends⟩]
      rfl
    · rename_i hends
      rw [if_neg fun h => hends h.2]
      rfl

end

/-- In front of a plus sign nothing may stand between a constant and its end. -/
theorem endsConstant_append_plus {cs : List Char} (noPlus : ∀ c ∈ cs, (c == '+') = false)
    (ls : List Lexeme) : endsConstant (lex cs ++ .plus :: ls) = true ↔ cs = [] := by
  cases cs with
  | nil => exact ⟨fun _ => rfl, fun _ => rfl⟩
  | cons c cs =>
    have hfalse : endsConstant (lex (c :: cs) ++ .plus :: ls) = false := by
      cases hl : lex (c :: cs) with
      | nil => exact absurd hl (lex_ne_nil c cs)
      | cons l ms =>
        cases l with
        | plus =>
          have hmem := mem_of_mem_lex (hl ▸ List.mem_cons_self) (List.mem_singleton.2 rfl)
          exact absurd (noPlus '+' hmem) (by decide)
        | newline => cases ms <;> rfl
        | _ => rfl
    rw [hfalse]
    exact ⟨fun h => (by cases h), fun h => (by cases h)⟩

theorem endsConstant_lex {cs : List Char} (noPlus : ∀ c ∈ cs, (c == '+') = false) :
    endsConstant (lex cs) = true ↔ chomp cs = [] := by
  rw [chomp_eq_nil_iff]
  cases cs with
  | nil => exact ⟨fun _ => .inl rfl, fun _ => rfl⟩
  | cons c cs =>
    have hc : c ≠ '+' := ne_of_beq_false (noPlus c List.mem_cons_self)
    rw [endsConstant_lex_cons hc]
    exact ⟨.inr, fun h => h.resolve_left (List.cons_ne_nil c cs)⟩

/-- A segment that another one follows is a constant if it is a numeral. -/
theorem constantTerms_segment {w : List Char} (noPlus : ∀ c ∈ w, (c == '+') = false)
    (ls : List Lexeme) :
    constantTerms (.plus :: (lex w ++ .plus :: ls)) =
      [w].filter isNumeral ++ constantTerms (.plus :: ls) := by
  obtain ⟨digits, cs, hdigits, hahead, rfl⟩ := exists_digits_append w
  have hcs : ∀ c ∈ cs, (c == '+') = false := fun c hc => noPlus c (List.mem_append_right _ hc)
  rw [constantTerms_plus_append hdigits hahead hcs (by simp),
    filter_isNumeral_append hdigits hahead]
  simp only [endsConstant_append_plus hcs]

theorem constantTerms_last_segment {w : List Char} (noPlus : ∀ c ∈ w, (c == '+') = false) :
    constantTerms (.plus :: lex w) = [chomp w].filter isNumeral := by
  obtain ⟨digits, cs, hdigits, hahead, rfl⟩ := exists_digits_append w
  have hcs : ∀ c ∈ cs, (c == '+') = false := fun c hc => noPlus c (List.mem_append_right _ hc)
  have hnil : ∀ ds rest, ([] : List Lexeme) ≠ .number ds :: rest := by simp
  have hplus := constantTerms_plus_append hdigits hahead hcs hnil
  rw [List.append_nil, List.append_nil] at hplus
  rw [hplus, chomp_digits_append hdigits,
    filter_isNumeral_append hdigits (noDigitAhead_chomp hahead)]
  simp only [endsConstant_lex hcs]
  exact List.append_nil _

theorem constantTerms_plus_lex (text : List Char) :
    constantTerms (.plus :: lex text) = ((segments text).modifyLast chomp).filter isNumeral := by
  induction text using segmentInduction with
  | segment w hw =>
    rw [constantTerms_last_segment hw, segments_of_no_plus hw]
    rfl
  | more w rest hw ih =>
    have hlast : (w :: segments rest).modifyLast chomp = w :: (segments rest).modifyLast chomp :=
      List.modifyLast_append_of_right_ne_nil chomp [w] (segments rest) (segments_ne_nil rest)
    have hplus : Lexeme.ofSingle '+' = .plus := rfl
    rw [lex_append_single w isDigit_plus, hplus, constantTerms_segment hw, ih,
      segments_append hw, hlast, ← List.filter_append]
    rfl

/-- The first segment stands behind no plus sign. -/
theorem constantTerms_lex (text : List Char) :
    constantTerms (lex text) = ((segments text).tail.modifyLast chomp).filter isNumeral := by
  rcases split_cases (· == '+') text with hw | ⟨w, c, rest, rfl, hw, hc⟩
  · have hnone := constantTerms_append hw []
    rw [List.append_nil] at hnone
    rw [hnone, segments_of_no_plus hw]
    rfl
  · obtain rfl : c = '+' := beq_iff_eq.1 hc
    have hplus : Lexeme.ofSingle '+' = .plus := rfl
    rw [lex_append_single w isDigit_plus, hplus, constantTerms_append hw, constantTerms_plus_lex,
      segments_append hw]
    rfl

/-- The constants of a text are its `segments` behind the first that are numerals, the last one
without its line feed. The pattern searches for constants and for dice find what the scans find, and
no character is covered by both. -/
theorem constants_eq_segments (text : List Char) :
    constantTerms (lex text) = ((segments text).tail.modifyLast chomp).filter isNumeral ∧
      (constantPattern.places text).map (fun x => x.2.pieces) =
        (constantTerms (lex text)).map (fun digits => [digits]) ∧
      ∀ mode : Mode,
        (mode.dicePattern.places text).map (fun x => x.2.pieces) =
          (mode.terms (lex text)).map Term.pieces ∧
        ∀ i, ¬ (mode.dicePattern.Takes text i ∧ constantPattern.Takes text i) := by
  have hfinds : ∀ p : Pattern,
      (p.places text).map (fun x => x.2.pieces) = (p.finds text).map Fit.pieces := by
    intro p
    rw [← p.map_places text, List.map_map]
    rfl
  refine ⟨constantTerms_lex text, ?_, fun mode => ⟨?_, not_takes_both mode text⟩⟩
  · rw [hfinds, finds_constantPattern]
  · rw [hfinds, finds_dicePattern]

-- a count behind a plus sign is no constant, and neither is a number before the first one
example : constantTerms (lex ['1', '+', '2', 'd', '6', '+', '3', '+', '4', '\n']) =
    [['3'], ['4']] := by
  decide +kernel

end DiceFormula
