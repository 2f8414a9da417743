import DiceFormula.Formula.Discovery
import DiceFormula.Proofs.Text.Cutting
import Mathlib.Data.List.DropRight
import Mathlib.Data.List.Infix

/-!
# The formulas of words

What discovery finds, said of the characters of a text: `words` splits the text
at its blanks, and `wordFormula` is the part of a word from the number before
its first die letter with a digit behind it to the end of the word. Discovery
finds these parts and nothing else (`formulas_eq_words`), whatever the words
are written next to, and finds them again when they are written out with blanks
between them (`formulas_unwords`).
-/

namespace DiceFormula

/-- The longest runs of characters that are no blanks. -/
def words (text : List Char) : List (List Char) :=
  (text.splitOnP isBlank).filter fun w => !w.isEmpty

/-- A die letter comes first, and a digit behind it. -/
def leadsDie : List Char → Bool
  | c :: d :: _ => isMark c && isDigit d
  | _ => false

/-- The place of the first die letter with a digit behind it. -/
def dieAt? (word : List Char) : Option Nat :=
  word.tails.findIdx? leadsDie

/-- The end of `word` from its first die on, with the digits right before the letter. -/
def wordFormula (word : List Char) : Option (List Char) :=
  (dieAt? word).map fun i => (word.take i).rtakeWhile isDigit ++ word.drop i

/-! ## Words -/

theorem words_nil : words [] = [] := by
  simp [words]

theorem words_append_blank (a : List Char) {c : Char} (h : isBlank c = true) (b : List Char) :
    words (a ++ c :: b) = words a ++ words b := by
  unfold words
  rw [List.splitOnP_append_cons a b h, List.filter_append]

theorem words_of_no_blank {w : List Char} (ne : w ≠ []) (h : ∀ c ∈ w, isBlank c = false) :
    words w = [w] := by
  unfold words
  rw [List.splitOnP_eq_singleton h]
  simp [ne]

/-- Induction on a text by its words, each with the blank behind it. -/
@[elab_as_elim] theorem wordInduction {motive : List Char → Prop} (text : List Char)
    (word : ∀ w, (∀ c ∈ w, isBlank c = false) → motive w)
    (more : ∀ w c rest, (∀ d ∈ w, isBlank d = false) → isBlank c = true → motive rest →
      motive (w ++ c :: rest)) : motive text :=
  partInduction isBlank text word more

theorem no_blank_of_mem_words {text w : List Char} (h : w ∈ words text) :
    ∀ c ∈ w, isBlank c = false := by
  induction text using wordInduction with
  | word v hv =>
    by_cases hn : v = []
    · subst hn
      rw [words_nil] at h
      cases h
    · rw [words_of_no_blank hn hv, List.mem_singleton] at h
      exact h ▸ hv
  | more v c rest hv hc ih =>
    rw [words_append_blank v hc, List.mem_append] at h
    rcases h with h | h
    · by_cases hn : v = []
      · subst hn
        rw [words_nil] at h
        cases h
      · rw [words_of_no_blank hn hv, List.mem_singleton] at h
        exact h ▸ hv
    · exact ih h

/-! ## The first die of a word -/

theorem dieAt?_cons (c : Char) (cs : List Char) :
    dieAt? (c :: cs) = if leadsDie (c :: cs) then some 0 else (dieAt? cs).map (· + 1) := by
  unfold dieAt?
  rw [List.tails_cons, List.findIdx?_cons]

theorem leadsDie_of_not_isMark {c : Char} (h : isMark c = false) (cs : List Char) :
    leadsDie (c :: cs) = false := by
  cases cs with
  | nil => rfl
  | cons d cs => rw [leadsDie, h]; rfl

theorem leadsDie_append {ds : List Char} (ahead : NoDigitAhead ds) (h : leadsDie ds = false)
    (cs : List Char) : leadsDie (cs ++ ds) = leadsDie cs := by
  rcases cs with _ | ⟨c, _ | ⟨d, cs⟩⟩
  · exact h
  · cases ds with
    | nil => rfl
    | cons d ds =>
      show (isMark c && isDigit d) = false
      rw [ahead d rfl, Bool.and_false]
  · rfl

/-- A die letter, the digits behind it, and what follows them. -/
theorem exists_of_leadsDie {cs : List Char} (h : leadsDie cs = true) :
    ∃ letter sides rest, cs = letter :: (sides ++ rest) ∧ isMark letter = true ∧ sides ≠ [] ∧
      (∀ c ∈ sides, isDigit c = true) ∧ NoDigitAhead rest := by
  rcases cs with _ | ⟨c, _ | ⟨d, cs⟩⟩
  · cases h
  · cases h
  · obtain ⟨hc, hd⟩ := Bool.and_eq_true_iff.1 h
    refine ⟨c, (d :: cs).takeWhile isDigit, (d :: cs).dropWhile isDigit, ?_, hc, ?_, ?_, ?_⟩
    · rw [List.takeWhile_append_dropWhile]
    · rw [List.takeWhile_cons_of_pos hd]
      exact List.cons_ne_nil _ _
    · exact fun x hx => List.mem_takeWhile_imp hx
    · exact noDigitAhead_dropWhile _

theorem noDigitAhead_of_not_leadsDie {c : Char} {cs : List Char} (hc : isMark c = true)
    (h : leadsDie (c :: cs) = false) : NoDigitAhead cs := by
  intro d hd
  cases cs with
  | nil => cases hd
  | cons e cs =>
    cases hd
    rw [leadsDie, hc] at h
    exact h

theorem rtakeWhile_append_cons {kind : Char → Bool} (a : List Char) {c : Char}
    (h : kind c = false) (b : List Char) :
    (a ++ c :: b).rtakeWhile kind = b.rtakeWhile kind := by
  have hrev : (a ++ c :: b).reverse = b.reverse ++ c :: a.reverse := by simp
  rw [List.rtakeWhile, hrev, List.takeWhile_append, List.takeWhile_cons_of_neg (by simp [h])]
  split
  · rename_i hl
    rw [List.append_nil, List.rtakeWhile, (List.takeWhile_sublist kind).eq_of_length hl]
  · rfl

theorem wordFormula_nil : wordFormula [] = none := rfl

/-- A character that is no digit begins the formula of a word only as the letter of a die. -/
theorem wordFormula_single {c : Char} (h : isDigit c = false) (cs : List Char) :
    wordFormula (c :: cs) = if leadsDie (c :: cs) then some (c :: cs) else wordFormula cs := by
  rw [wordFormula, dieAt?_cons]
  split
  · rfl
  · rw [Option.map_map, wordFormula]
    congr 1
    funext i
    have := rtakeWhile_append_cons [] h (cs.take i)
    simpa using this

/-- A run of digits begins the formula of a word if a die follows, and is no part of it otherwise.
-/
theorem wordFormula_number {digits : List Char} (all : ∀ c ∈ digits, isDigit c = true)
    {cs : List Char} (h : NoDigitAhead cs) :
    wordFormula (digits ++ cs) = if leadsDie cs then some (digits ++ cs) else wordFormula cs := by
  have hplace : dieAt? (digits ++ cs) = (dieAt? cs).map (· + digits.length) := by
    induction digits with
    | nil => simp
    | cons d digits ih =>
      have hmark : isMark d = false := isMark_of_isDigit (all d List.mem_cons_self)
      have hd := leadsDie_of_not_isMark hmark (digits ++ cs)
      rw [List.cons_append, dieAt?_cons, hd, ih fun x hx => all x (List.mem_cons_of_mem d hx),
        Option.map_map]
      rfl
  rw [wordFormula, hplace, Option.map_map]
  cases cs with
  | nil => rfl
  | cons c cs =>
    have hc : isDigit c = false := h c rfl
    rw [wordFormula_single hc, dieAt?_cons]
    split
    · simp [List.rtakeWhile_eq_self_iff.2 all]
    · rw [Option.map_map, wordFormula]
      congr 1
      funext i
      have htake : (digits ++ c :: cs).take (digits.length + (i + 1)) = digits ++ c :: cs.take i :=
        List.take_length_add_append (i + 1)
      have hdrop : (digits ++ c :: cs).drop (digits.length + (i + 1)) = cs.drop i :=
        List.drop_length_add_append (i + 1)
      simp only [Function.comp_apply, Nat.add_comm _ digits.length]
      rw [htake, hdrop, rtakeWhile_append_cons digits hc]

/-! ## Discovery -/

/-- The text from the first lexeme on at which a die begins. -/
def fromDie? : List Lexeme → Option (List Char)
  | [] => none
  | l :: ls => if opensDie (l :: ls) then some (textOf (l :: ls)) else fromDie? ls

theorem opensDie_mark (letter : Char) (cs : List Char) :
    opensDie (.mark letter :: lex cs) = cs.head?.any isDigit := by
  cases cs with
  | nil => rfl
  | cons c cs =>
    by_cases hc : isDigit c = true
    · obtain ⟨digits, ls, hl⟩ := lex_digit hc cs
      rw [hl]
      simp [opensDie, hc]
    · have hn : isDigit c = false := eq_false_of_ne_true hc
      rw [lex_single hn]
      cases hs : Lexeme.ofSingle c with
      | number digits => exact absurd hs (Lexeme.ofSingle_ne_number c digits)
      | _ => simp [opensDie, hn]

theorem opensDie_single {c : Char} (h : isDigit c = false) (cs : List Char) :
    opensDie (lex (c :: cs)) = leadsDie (c :: cs) := by
  rw [lex_single h]
  cases hm : isMark c with
  | true =>
    rw [Lexeme.ofSingle_of_isMark hm, opensDie_mark]
    cases cs with
    | nil => rfl
    | cons d cs => simp [leadsDie, hm]
  | false =>
    rw [leadsDie_of_not_isMark hm]
    cases hs : Lexeme.ofSingle c with
    | number digits => exact absurd hs (Lexeme.ofSingle_ne_number c digits)
    | mark letter =>
      rw [(Lexeme.isMark_of_ofSingle hs).1] at hm
      cases hm
    | _ => rfl

theorem opensDie_number (digits : List Char) {cs : List Char} (h : NoDigitAhead cs) :
    opensDie (.number digits :: lex cs) = leadsDie cs := by
  cases cs with
  | nil => rfl
  | cons c cs =>
    have hc : isDigit c = false := h c rfl
    rw [← opensDie_single hc cs, lex_single hc]
    cases hs : Lexeme.ofSingle c with
    | number digits => exact absurd hs (Lexeme.ofSingle_ne_number c digits)
    | mark letter => cases lex cs with
      | nil => rfl
      | cons l ls => cases l <;> rfl
    | _ => rfl

theorem wordFormula_eq_fromDie? (word : List Char) : wordFormula word = fromDie? (lex word) := by
  induction word using cutInduction with
  | nil => rfl
  | single c cs h ih =>
    have htext : textOf (Lexeme.ofSingle c :: lex cs) = c :: cs := by
      rw [← lex_single h, textOf_lex]
    have hopens : opensDie (Lexeme.ofSingle c :: lex cs) = leadsDie (c :: cs) := by
      rw [← lex_single h, opensDie_single h]
    rw [wordFormula_single h, lex_single h, fromDie?, htext, hopens, ih]
  | number digits cs ne all h ih =>
    rw [wordFormula_number all h, lex_number ne all h, fromDie?, opensDie_number digits h, ih,
      textOf_cons, textOf_lex]
    rfl

def Gapless (ls : List Lexeme) : Prop := ∀ l ∈ ls, l.isGap = false

/-- Nothing but a gap comes first. -/
def GapAhead (ls : List Lexeme) : Prop := ∀ l ∈ ls.head?, l.isGap = true

theorem gapless_lex {w : List Char} (h : ∀ c ∈ w, isBlank c = false) : Gapless (lex w) := by
  induction w using cutInduction with
  | nil => exact List.forall_mem_nil _
  | single c cs hc ih =>
    obtain ⟨hb, hcs⟩ := List.forall_mem_cons.1 h
    rw [lex_single hc]
    exact List.forall_mem_cons.2 ⟨by rw [Lexeme.isGap_ofSingle, hb], ih hcs⟩
  | number digits cs ne all hcs ih =>
    rw [lex_number ne all hcs]
    exact List.forall_mem_cons.2 ⟨rfl, ih fun c hc => h c (List.mem_append_right digits hc)⟩

section Gap

variable {ws rest : List Lexeme}

theorem opensDie_append (hr : GapAhead rest) (ws : List Lexeme) :
    opensDie (ws ++ rest) = opensDie ws := by
  rcases rest with _ | ⟨g, rest⟩
  · rw [List.append_nil]
  · have hg : g.isGap = true := hr g rfl
    cases g <;> cases hg <;>
      (rcases ws with _ | ⟨a, _ | ⟨b, _ | ⟨c, ws⟩⟩⟩
       · rfl
       · cases a <;> rfl
       · cases a <;> cases b <;> rfl
       · cases a <;> cases b <;> cases c <;> rfl)

theorem beforeGap_append (hw : Gapless ws) (hr : GapAhead rest) : beforeGap (ws ++ rest) = ws := by
  unfold beforeGap
  rw [List.takeWhile_append_of_pos fun l hl => by rw [hw l hl]; rfl]
  rcases rest with _ | ⟨g, rest⟩
  · exact List.append_nil ws
  · rw [List.takeWhile_cons_of_neg (by rw [hr g rfl]; decide), List.append_nil]

theorem formulasFrom_true_append (hw : Gapless ws) (hr : GapAhead rest) :
    formulasFrom true (ws ++ rest) = formulasFrom false rest := by
  induction ws with
  | nil =>
    rcases rest with _ | ⟨g, rest⟩
    · rfl
    · have hg : g.isGap = true := hr g rfl
      rw [List.nil_append, formulasFrom_gap hg, formulasFrom_gap hg]
  | cons l ws ih =>
    obtain ⟨hl, hws⟩ := List.forall_mem_cons.1 hw
    rw [List.cons_append, formulasFrom, hl]
    exact ih hws

/-- Up to the next gap there is one formula at most. -/
theorem formulasFrom_false_append (hw : Gapless ws) (hr : GapAhead rest) :
    formulasFrom false (ws ++ rest) = (fromDie? ws).toList ++ formulasFrom false rest := by
  induction ws with
  | nil => rfl
  | cons l ws ih =>
    obtain ⟨hl, hws⟩ := List.forall_mem_cons.1 hw
    have hopens := opensDie_append hr (l :: ws)
    have hbefore := beforeGap_append hw hr
    rw [List.cons_append] at hopens hbefore ⊢
    rw [formulasFrom, hl, hopens, hbefore, fromDie?]
    cases opensDie (l :: ws) with
    | true => simp [formulasFrom_true_append hws hr]
    | false => simpa using ih hws

end Gap

theorem filterMap_words_of_no_blank {w : List Char} (h : ∀ c ∈ w, isBlank c = false) :
    (words w).filterMap wordFormula = (wordFormula w).toList := by
  by_cases hn : w = []
  · subst hn
    rw [words_nil]
    rfl
  · rw [words_of_no_blank hn h]
    cases hf : wordFormula w <;> simp [hf]

/-- Discovery goes word by word. -/
theorem formulas_eq_words (text : List Char) :
    formulas text = (words text).filterMap wordFormula := by
  induction text using wordInduction with
  | word w hw =>
    have hr : GapAhead [] := fun g hg => by cases hg
    have h := formulasFrom_false_append (gapless_lex hw) hr
    rw [List.append_nil, ← wordFormula_eq_fromDie?] at h
    rw [formulas, h, filterMap_words_of_no_blank hw]
    exact List.append_nil _
  | more w c rest hw hc ih =>
    have hg : (Lexeme.ofSingle c).isGap = true := by rw [Lexeme.isGap_ofSingle, hc]
    have hr : GapAhead (Lexeme.ofSingle c :: lex rest) := fun g h => Option.some.inj h ▸ hg
    have h := formulasFrom_false_append (gapless_lex hw) hr
    rw [formulasFrom_gap hg, ← wordFormula_eq_fromDie?] at h
    rw [formulas, lex_append_single w (isDigit_of_isBlank hc), h, words_append_blank w hc,
      List.filterMap_append, filterMap_words_of_no_blank hw, ← ih]
    rfl

-- what stands before the count of a die is left out, and what stands behind its sides is kept
example : formulas ['a', 'd', '1', '2', 'd', 'x', ' ', 'd', '\n', '+', '3', 'D', '4', '+', 'z'] =
    [['d', '1', '2', 'd', 'x'], ['3', 'D', '4', '+', 'z']] := by
  decide +kernel

theorem formulas_append_blank (a : List Char) {c : Char} (h : isBlank c = true) (b : List Char) :
    formulas (a ++ c :: b) = formulas a ++ formulas b := by
  simp only [formulas_eq_words, words_append_blank a h, List.filterMap_append]

/-! ## Formulas written out again -/

theorem wordFormula_suffix {word f : List Char} (h : wordFormula word = some f) : f <:+ word := by
  induction word using cutInduction with
  | nil => cases h
  | single c cs hc ih =>
    rw [wordFormula_single hc] at h
    split at h
    · exact Option.some.inj h ▸ List.suffix_refl _
    · exact (ih h).trans (List.suffix_cons c cs)
  | number digits cs ne all hcs ih =>
    rw [wordFormula_number all hcs] at h
    split at h
    · exact Option.some.inj h ▸ List.suffix_refl _
    · exact (ih h).trans (List.suffix_append digits cs)

/-- A formula is its own formula. -/
theorem wordFormula_idem {word f : List Char} (h : wordFormula word = some f) :
    wordFormula f = some f := by
  induction word using cutInduction with
  | nil => cases h
  | single c cs hc ih =>
    have hw := wordFormula_single hc cs
    rw [hw] at h
    split at h
    · rename_i hd
      rw [← Option.some.inj h, hw, if_pos hd]
    · exact ih h
  | number digits cs ne all hcs ih =>
    have hw := wordFormula_number all hcs
    rw [hw] at h
    split at h
    · rename_i hd
      rw [← Option.some.inj h, hw, if_pos hd]
    · exact ih h

theorem of_mem_formulas {text f : List Char} (h : f ∈ formulas text) :
    f ≠ [] ∧ (∀ c ∈ f, isBlank c = false) ∧ wordFormula f = some f := by
  rw [formulas_eq_words] at h
  obtain ⟨w, hw, hf⟩ := List.mem_filterMap.1 h
  have hidem := wordFormula_idem hf
  refine ⟨fun hn => ?_, fun c hc => ?_, hidem⟩
  · rw [hn, wordFormula_nil] at hidem
    cases hidem
  · exact no_blank_of_mem_words hw c ((wordFormula_suffix hf).subset hc)

theorem blank_not_mem_of_mem_formulas {text f : List Char} (h : f ∈ formulas text) {c : Char}
    (blank : isBlank c = true) : c ∉ f := fun hc => by
  cases blank.symm.trans ((of_mem_formulas h).2.1 c hc)

/-- The texts `fs` with single spaces between them. -/
def unwords (fs : List (List Char)) : List Char := [' '].intercalate fs

theorem words_unwords {fs : List (List Char)}
    (h : ∀ f ∈ fs, f ≠ [] ∧ ∀ c ∈ f, isBlank c = false) : words (unwords fs) = fs := by
  induction fs with
  | nil => exact words_nil
  | cons f fs ih =>
    obtain ⟨⟨hne, hf⟩, hfs⟩ := List.forall_mem_cons.1 h
    cases fs with
    | nil => simpa [unwords] using words_of_no_blank hne hf
    | cons g fs =>
      have hsplit : unwords (f :: g :: fs) = f ++ ' ' :: unwords (g :: fs) := by
        simp [unwords, List.intercalate]
      rw [hsplit, words_append_blank f rfl, words_of_no_blank hne hf, ih hfs]
      rfl

/-- Formulas of `text` are found again in every text that has them for its words. -/
theorem formulas_of_words_eq {text other : List Char} {fs : List (List Char)}
    (h : ∀ f ∈ fs, f ∈ formulas text)
    (hwords : (∀ f ∈ fs, f ≠ [] ∧ ∀ c ∈ f, isBlank c = false) → words other = fs) :
    formulas other = fs := by
  have hself : ∀ f ∈ fs, wordFormula f = some f := fun f hf => (of_mem_formulas (h f hf)).2.2
  have hsolid : ∀ f ∈ fs, f ≠ [] ∧ ∀ c ∈ f, isBlank c = false := fun f hf =>
    let ⟨ne, hb, _⟩ := of_mem_formulas (h f hf)
    ⟨ne, hb⟩
  rw [formulas_eq_words, hwords hsolid, List.filterMap_congr hself, List.filterMap_some]

theorem formulas_unwords {text : List Char} {fs : List (List Char)}
    (h : ∀ f ∈ fs, f ∈ formulas text) : formulas (unwords fs) = fs :=
  formulas_of_words_eq h words_unwords

end DiceFormula
