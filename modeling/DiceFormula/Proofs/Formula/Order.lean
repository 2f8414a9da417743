import DiceFormula.Proofs.Formula.Faults
import DiceFormula.Proofs.Formula.Sums
import Mathlib.Algebra.BigOperators.Group.List.Basic

/-!
# The order of summands

The terms of a text are those of its segments (`Mode.terms_lex_segments`), and
so are its constants where the first segment is no number alone. So texts of the
same segments, in whatever order, have the same dice and constants in some
order, or are refused for errors of one kind, and one average
(`evaluate_average_perm`). Which term an error names may change with the order.
-/

namespace DiceFormula

/-! ## Formulas in any order -/

/-- `F` and `G` have the same dice and the same constants, in some order. -/
structure Formula.Perm (F G : Formula) : Prop where
  dice : F.dice.Perm G.dice
  constants : F.constants.Perm G.constants

theorem Formula.Perm.average_eq {F G : Formula} (h : F.Perm G) : F.average = G.average := by
  rw [average, average, (h.dice.map Dice.average).sum_eq, h.constants.sum_eq]

/-- Formulas of the same summands, or errors of one kind. -/
inductive ReadingsPermuted : Except DiceError Formula → Except DiceError Formula → Prop where
  | ok {F G : Formula} : F.Perm G → ReadingsPermuted (.ok F) (.ok G)
  | noDice (f g : List Char) : ReadingsPermuted (.error (.noDice f)) (.error (.noDice g))
  | malformed (t u : List Char) (reason reason' : Reason) :
      ReadingsPermuted (.error (.malformed t reason)) (.error (.malformed u reason'))

/-! ## Verdicts on terms in any order -/

theorem exists_find?_of_perm {α : Type} {p : α → Bool} {xs ys : List α} {x : α}
    (h : xs.Perm ys) (hx : xs.find? p = some x) : ∃ y, ys.find? p = some y := by
  apply Option.isSome_iff_exists.1
  rw [List.find?_isSome]
  exact ⟨x, h.mem_iff.1 (List.mem_of_find?_eq_some hx), List.find?_some hx⟩

theorem Verdict.perm {mode : Mode} {a b : List Char} {ts us : List Term}
    {ks ls : List (List Char)} {r : Except DiceError Formula} (hts : ts.Perm us)
    (hks : ks.Perm ls) (h : Verdict mode a ts ks r) :
    ∃ r', Verdict mode b us ls r' ∧ ReadingsPermuted r r' := by
  have hsound : (∀ t ∈ ts, t.fault? mode = none) → ∀ u ∈ us, u.fault? mode = none :=
    fun hall u hu => hall u (hts.mem_iff.2 hu)
  have hne : ts ≠ [] → us ≠ [] := fun hsome hnil => hsome (hnil ▸ hts).eq_nil
  cases h with
  | term hfirst hfault =>
    obtain ⟨u, hu⟩ := exists_find?_of_perm hts hfirst
    have hwrong : (u.fault? mode).isSome = true := by simpa using List.find?_some hu
    obtain ⟨reason, hreason⟩ := Option.isSome_iff_exists.1 hwrong
    exact ⟨_, .term hu hreason, .malformed _ _ _ _⟩
  | empty hnil => exact ⟨_, .empty (hnil ▸ hts).symm.eq_nil, .noDice a b⟩
  | constant hsome hall hfirst =>
    obtain ⟨l, hl⟩ := exists_find?_of_perm hks hfirst
    exact ⟨_, .constant (hne hsome) (hsound hall) hl, .malformed _ _ _ _⟩
  | sound hsome hall hshort =>
    refine ⟨_, .sound (hne hsome) (hsound hall) ?_, .ok ⟨hts.map _, hks.map _⟩⟩
    exact fun l hl => hshort l (hks.mem_iff.2 hl)

/-! ## Segments in any order -/

theorem Mode.terms_lex_segments (mode : Mode) (text : List Char) :
    mode.terms (lex text) = (segments text).flatMap fun s => mode.terms (lex s) := by
  induction text using segmentInduction with
  | segment w hw => rw [segments_of_no_plus hw, List.flatMap_singleton]
  | more w rest hw ih =>
    rw [segments_append hw, List.flatMap_cons, ← ih, mode.terms_lex_append_plus]

section

variable {a b : List Char}

theorem Mode.perm_terms (mode : Mode) (h : (segments a).Perm (segments b)) :
    (mode.terms (lex a)).Perm (mode.terms (lex b)) := by
  rw [mode.terms_lex_segments, mode.terms_lex_segments]
  exact h.flatMap_right _

theorem mem_segments_of_mem {text : List Char} {c : Char} (hc : c ∈ text) (plus : c ≠ '+') :
    ∃ s ∈ segments text, c ∈ s := by
  induction text using segmentInduction with
  | segment w hw => exact ⟨w, by rw [segments_of_no_plus hw]; exact List.mem_singleton.2 rfl, hc⟩
  | more w rest hw ih =>
    rw [segments_append hw]
    rcases List.mem_append.1 hc with hw' | hrest
    · exact ⟨w, List.mem_cons_self, hw'⟩
    · obtain ⟨s, hs, hcs⟩ := ih ((List.mem_cons.1 hrest).resolve_left plus)
      exact ⟨s, List.mem_cons_of_mem w hs, hcs⟩

theorem not_mem_newline_of_perm (h : (segments a).Perm (segments b)) (ha : '\n' ∉ a) :
    '\n' ∉ b := by
  intro hb
  obtain ⟨s, hs, hc⟩ := mem_segments_of_mem hb (by decide)
  exact ha (mem_of_mem_segments (h.mem_iff.2 hs) hc)

variable (h : (segments a).Perm (segments b)) (unbroken : '\n' ∉ a)
  (first : ∀ s ∈ (segments a).head?, isNumeral s = false)
  (first' : ∀ s ∈ (segments b).head?, isNumeral s = false)

include h unbroken first first'

/-- Each segment is a constant or not, wherever it stands. -/
theorem perm_constantTerms : (constantTerms (lex a)).Perm (constantTerms (lex b)) := by
  have ha := first _ (head?_segments a)
  have hb := first' _ (head?_segments b)
  rw [constantTerms_eq_filter unbroken ha,
    constantTerms_eq_filter (not_mem_newline_of_perm h unbroken) hb]
  exact h.filter isNumeral

theorem Formula.read_perm (mode : Mode) :
    ReadingsPermuted (read mode a) (read mode b) := by
  have hverdict := read_eq_iff.1 (Eq.refl (read mode a))
  have hconstants := perm_constantTerms h unbroken first first'
  obtain ⟨r, hr, hpermuted⟩ := hverdict.perm (mode.perm_terms h) hconstants
  rw [hr.read_eq]
  exact hpermuted

end

theorem plus_not_mem_segments {text s : List Char} (h : s ∈ segments text) : '+' ∉ s := by
  have hplus : ∀ {w : List Char}, (∀ c ∈ w, (c == '+') = false) → '+' ∉ w :=
    fun hw hc => by simpa using hw '+' hc
  induction text using segmentInduction with
  | segment w hw =>
    rw [segments_of_no_plus hw, List.mem_singleton] at h
    exact h ▸ hplus hw
  | more w rest hw ih =>
    rw [segments_append hw, List.mem_cons] at h
    rcases h with rfl | h
    · exact hplus hw
    · exact ih h

theorem segments_intercalate {text : List Char} {ss : List (List Char)}
    (perm : ss.Perm (segments text)) : segments (['+'].intercalate ss) = ss := by
  refine List.splitOn_intercalate '+' (fun s hs => ?_) ?_
  · exact plus_not_mem_segments (perm.mem_iff.1 hs)
  · rintro rfl
    exact segments_ne_nil text perm.symm.eq_nil

/-- On one line, `text` and `other`, its segments in another order, have the same average, or are
both refused for want of dice, or both for a term; neither may begin with a numeral alone. -/
theorem evaluate_average_perm {text : List Char} {ss : List (List Char)} (unbroken : '\n' ∉ text)
    (perm : ss.Perm (segments text))
    (first : ∀ s ∈ (segments text).head?, isNumeral s = false)
    (first' : ∀ s ∈ ss.head?, isNumeral s = false) :
    let other := ['+'].intercalate ss
    segments other = ss ∧
      ∀ bytes,
        (∃ total, (evaluate .average text).Gives bytes total bytes ∧
          (evaluate .average other).Gives bytes total bytes) ∨
        (((evaluate .average text).run bytes).result = .error (.refused (.noDice text)) ∧
          ((evaluate .average other).run bytes).result = .error (.refused (.noDice other))) ∨
        ∃ t reason u reason',
          ((evaluate .average text).run bytes).result = .error (.refused (.malformed t reason)) ∧
            ((evaluate .average other).run bytes).result =
              .error (.refused (.malformed u reason')) := by
  intro other
  have hsegments : segments other = ss := segments_intercalate perm
  have hread := Formula.read_perm (by rw [hsegments]; exact perm.symm) unbroken first
    (by rw [hsegments]; exact first') .average
  refine ⟨hsegments, fun bytes => ?_⟩
  have hrefused : ∀ {f : List Char} {e : DiceError}, Formula.read .average f = .error e →
      ((evaluate .average f).run bytes).result = .error (.refused e) := fun h => by
    rw [run_evaluate_error h]
  generalize htext : Formula.read .average text = r at hread
  generalize hother : Formula.read .average other = r' at hread
  cases hread with
  | ok hperm =>
    refine .inl ⟨_, gives_average_of_read htext bytes, ?_⟩
    rw [hperm.average_eq]
    exact gives_average_of_read hother bytes
  | noDice f g =>
    obtain ⟨-, rfl⟩ := read_eq_noDice_iff.1 htext
    obtain ⟨-, rfl⟩ := read_eq_noDice_iff.1 hother
    exact .inr (.inl ⟨hrefused htext, hrefused hother⟩)
  | malformed t u reason reason' =>
    exact .inr (.inr ⟨t, reason, u, reason', hrefused htext, hrefused hother⟩)

/-- Two dice in one segment, an empty segment, and a constant, the other way round. -/
theorem evaluate_average_perm_reversed :
    let text := ['2', 'd', '6', 'd', '4', '+', '+', '3', '+', 'd', '8', 'x']
    let ss := [['d', '8', 'x'], ['3'], [], ['2', 'd', '6', 'd', '4']]
    let other := ['d', '8', 'x', '+', '3', '+', '+', '2', 'd', '6', 'd', '4']
    '\n' ∉ text ∧ ss.Perm (segments text) ∧
      (∀ s ∈ (segments text).head?, isNumeral s = false) ∧
      (∀ s ∈ ss.head?, isNumeral s = false) ∧ segments other = ss ∧
      (evaluate .average text).Gives [] 18 [] ∧ (evaluate .average other).Gives [] 18 [] := by
  intro text ss other
  have hunbroken : '\n' ∉ text := by decide
  have hperm : ss.Perm (segments text) := by decide +kernel
  have hfirst : ∀ s ∈ (segments text).head?, isNumeral s = false := by decide +kernel
  have hfirst' : ∀ s ∈ ss.head?, isNumeral s = false := by decide +kernel
  have htext : (evaluate .average text).Gives [] 18 [] := by decide +kernel
  obtain ⟨hsegments, hruns⟩ := evaluate_average_perm hunbroken hperm hfirst hfirst'
  refine ⟨hunbroken, hperm, hfirst, hfirst', hsegments, htext, ?_⟩
  rcases hruns [] with ⟨total, hgives, hother⟩ | ⟨hnone, -⟩ | ⟨t, reason, u, reason', hwrong, -⟩
  · obtain rfl : 18 = total := Except.ok.inj (htext.1.symm.trans hgives.1)
    exact hother
  · cases htext.1.symm.trans hnone
  · cases htext.1.symm.trans hwrong

end DiceFormula
