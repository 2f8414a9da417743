import DiceFormula.Proofs.Formula.Chains
import DiceFormula.Proofs.Formula.Words
import DiceFormula.Proofs.Roll.Mean
import DiceFormula.Proofs.Roll.Starving

/-!
# Written formulas

A formula is written as summands with plus signs between them, dice and
constants in any order, a die first. Such a text is one formula, and it is read
as what was written: the dice that the mode takes, in order, and all constants,
in order (`read_written`). A number may be written in any digits, with zeros in
front, as long as it is short enough to be read; `Figures.ofNat` writes it in
the shortest way.
-/

namespace DiceFormula

/-- A number as it is written. -/
structure Figures where
  digits : List Char
  ne_nil : digits ≠ []
  all : ∀ c ∈ digits, isDigit c = true
  short : digits.length ≤ Numeral.limit

namespace Figures

def value (w : Figures) : Nat := Numeral.value w.digits

theorem read?_digits (w : Figures) : Numeral.read? w.digits = some w.value :=
  Numeral.read?_of_length_le w.short

/-- The shortest writing of `n` in the basic figures. -/
def ofNat (n : Nat) (h : Numeral.Writable n) : Figures where
  digits := Numeral.digits n
  ne_nil := Nat.toDigits_ne_nil
  all _ hc := isDigit_of_charIsDigit (Nat.isDigit_of_mem_toDigits (by decide) (by decide) hc)
  short := Numeral.writable_natCast_iff.1 h

@[simp] theorem value_ofNat (n : Nat) (h : Numeral.Writable n) : (ofNat n h).value = n :=
  Numeral.value_digits n

/-- The largest number that is short enough to be read. -/
def largest : Figures where
  digits := List.replicate Numeral.limit '9'
  ne_nil := by
    rw [Ne, List.replicate_eq_nil_iff]
    decide
  all c hc := by
    rw [List.eq_of_mem_replicate hc]
    decide
  short := Nat.le_of_eq List.length_replicate

theorem valueFrom_nines (n k : Nat) :
    Numeral.valueFrom n (List.replicate k '9') + 1 = (n + 1) * 10 ^ k := by
  induction k generalizing n with
  | zero => simp [Numeral.valueFrom]
  | succ k ih =>
    have hstep : Numeral.valueFrom n (List.replicate (k + 1) '9') =
        Numeral.valueFrom (10 * n + 9) (List.replicate k '9') := rfl
    rw [hstep, ih, Nat.pow_succ', ← Nat.mul_assoc]
    congr 1
    omega

theorem value_largest : largest.value + 1 = 10 ^ Numeral.limit := by
  have h := valueFrom_nines 0 Numeral.limit
  rwa [Nat.zero_add, Nat.one_mul] at h

end Figures

structure DieLetter where
  char : Char
  isMark : DiceFormula.isMark char = true

/-- What is added up in a formula; a bare die has no `count`. -/
inductive Summand where
  | die (count : Option Figures) (letter : DieLetter) (sides : Figures)
  | constant (number : Figures)

namespace Summand

def text : Summand → List Char
  | die count letter sides => count.elim [] Figures.digits ++ letter.char :: sides.digits
  | constant number => number.digits

def isDie : Summand → Bool
  | die .. => true
  | constant _ => false

/-- The dice that a mode takes from a summand. -/
def dice? : Mode → Summand → Option Dice
  | .average, die count _ sides => some ⟨(count.elim 1 Figures.value : Nat), sides.value⟩
  | .simulate, die (some count) _ sides => some ⟨count.value, sides.value⟩
  | _, _ => none

def constant? : Summand → Option Int
  | die .. => none
  | constant number => some number.value

def lexemes : Summand → List Lexeme
  | die none letter sides => [.mark letter.char, .number sides.digits]
  | die (some count) letter sides =>
    [.number count.digits, .mark letter.char, .number sides.digits]
  | constant number => [.number number.digits]

/-- The die that a mode finds in a summand. -/
def term? : Mode → Summand → Option Term
  | .average, die count letter sides =>
    some ⟨count.map Figures.digits, letter.char, sides.digits⟩
  | .simulate, die (some count) letter sides =>
    some ⟨some count.digits, letter.char, sides.digits⟩
  | _, _ => none

def digits? : Summand → Option (List Char)
  | die .. => none
  | constant number => some number.digits

end Summand

open Summand

/-- The summands `ss` with plus signs between them. -/
def written (ss : List Summand) : List Char := ['+'].intercalate (ss.map Summand.text)

/-- The summands `ss` with plus signs before them. -/
def continued (ss : List Summand) : List Char := ss.flatMap fun s => '+' :: s.text

def continuedLexemes (ss : List Summand) : List Lexeme := ss.flatMap fun s => .plus :: s.lexemes

theorem written_cons (s : Summand) (ss : List Summand) :
    written (s :: ss) = s.text ++ continued ss := by
  unfold written continued
  induction ss generalizing s with
  | nil => simp
  | cons t ss ih =>
    rw [List.map_cons, List.map_cons, List.intercalate_cons_cons, ← List.map_cons, ih,
      List.flatMap_cons]
    simp

/-! ## Lexemes -/

theorem noDigitAhead_continued (ss : List Summand) : NoDigitAhead (continued ss) := by
  cases ss with
  | nil => exact noDigitAhead_nil
  | cons s ss => exact noDigitAhead_cons isDigit_plus _

theorem lex_text (s : Summand) {cs : List Char} (ahead : NoDigitAhead cs) :
    lex (s.text ++ cs) = s.lexemes ++ lex cs := by
  have hdie : ∀ (letter : DieLetter) (sides : Figures),
      lex (letter.char :: (sides.digits ++ cs)) =
        .mark letter.char :: .number sides.digits :: lex cs := by
    intro letter sides
    rw [lex_single (isDigit_of_isMark letter.isMark), Lexeme.ofSingle_of_isMark letter.isMark,
      lex_number sides.ne_nil sides.all ahead]
  cases s with
  | constant number => exact lex_number number.ne_nil number.all ahead
  | die count letter sides =>
    cases count with
    | none => exact hdie letter sides
    | some count =>
      have hahead := noDigitAhead_cons (isDigit_of_isMark letter.isMark) (sides.digits ++ cs)
      show lex (count.digits ++ letter.char :: sides.digits ++ cs) = _
      rw [List.append_assoc, List.cons_append, lex_number count.ne_nil count.all hahead, hdie]
      rfl

theorem lex_continued (ss : List Summand) : lex (continued ss) = continuedLexemes ss := by
  induction ss with
  | nil => rfl
  | cons s ss ih =>
    show lex ('+' :: (s.text ++ continued ss)) = .plus :: (s.lexemes ++ continuedLexemes ss)
    rw [lex_single isDigit_plus, lex_text s (noDigitAhead_continued ss), ih]
    rfl

theorem lex_written (s : Summand) (ss : List Summand) :
    lex (written (s :: ss)) = s.lexemes ++ continuedLexemes ss := by
  rw [written_cons, lex_text s (noDigitAhead_continued ss), lex_continued]

/-! ## Scans -/

theorem loose_continuedLexemes (ss : List Summand) : Loose (continuedLexemes ss) := by
  intro letter sides rest h
  cases ss with
  | nil => cases h
  | cons s ss => cases (List.cons.inj h).1

theorem endsConstant_continuedLexemes (ss : List Summand) :
    endsConstant (continuedLexemes ss) = true := by
  cases ss <;> rfl

/-- In front of lexemes that do not go on with a die, `s` has its own die or none. -/
theorem terms_lexemes (mode : Mode) (s : Summand) {ls : List Lexeme} (loose : Loose ls) :
    mode.terms (s.lexemes ++ ls) = (s.term? mode).toList ++ mode.terms ls := by
  have hnumber : ∀ digits, mode.terms (.number digits :: ls) = mode.terms ls :=
    mode.terms_number loose
  cases s with
  | constant number => cases mode <;> exact hnumber number.digits
  | die count letter sides =>
    cases count with
    | some count => cases mode <;> rfl
    | none =>
      cases mode with
      | average => rfl
      | simulate => exact hnumber sides.digits

theorem terms_continuedLexemes (mode : Mode) (ss : List Summand) :
    mode.terms (continuedLexemes ss) = ss.filterMap (term? mode) := by
  induction ss with
  | nil => cases mode <;> rfl
  | cons s ss ih =>
    have hplus : mode.terms (continuedLexemes (s :: ss)) =
        mode.terms (s.lexemes ++ continuedLexemes ss) := by
      cases mode <;> rfl
    rw [hplus, terms_lexemes mode s (loose_continuedLexemes ss), ih]
    cases hs : s.term? mode <;> simp [hs]

theorem terms_written (mode : Mode) (s : Summand) (ss : List Summand) :
    mode.terms (lex (written (s :: ss))) = (s :: ss).filterMap (term? mode) := by
  rw [lex_written, terms_lexemes mode s (loose_continuedLexemes ss), terms_continuedLexemes]
  cases hs : s.term? mode <;> simp [hs]

theorem constantTerms_continuedLexemes (ss : List Summand) :
    constantTerms (continuedLexemes ss) = ss.filterMap digits? := by
  induction ss with
  | nil => rfl
  | cons s ss ih =>
    cases s with
    | die count letter sides => cases count <;> exact ih
    | constant number =>
      show constantTerms (.plus :: .number number.digits :: continuedLexemes ss) = _
      rw [constantTerms, endsConstant_continuedLexemes, if_pos rfl, ih]
      rfl

theorem constantTerms_written {s : Summand} (die : s.isDie = true) (ss : List Summand) :
    constantTerms (lex (written (s :: ss))) = (s :: ss).filterMap digits? := by
  rw [lex_written]
  cases s with
  | constant number => cases die
  | die count letter sides => cases count <;> exact constantTerms_continuedLexemes ss

/-! ## Reading -/

theorem forall₂_filterMap {α β γ : Type} {R : β → γ → Prop} {f : α → Option β} {g : α → Option γ}
    {xs : List α} (h : ∀ x ∈ xs, Option.Rel R (f x) (g x)) :
    List.Forall₂ R (xs.filterMap f) (xs.filterMap g) := by
  have hsame : List.Forall₂ (fun x y => x = y ∧ x ∈ xs) xs xs :=
    List.forall₂_same.2 fun x hx => ⟨rfl, hx⟩
  refine List.rel_filterMap (fun x y hxy => ?_) hsame
  obtain ⟨rfl, hx⟩ := hxy
  exact h x hx

theorem read_term? {mode : Mode} {s : Summand} (hs : ∀ d, s.dice? mode = some d → d.Sound mode) :
    Option.Rel (fun t d => Term.read mode t = .ok d) (s.term? mode) (s.dice? mode) := by
  cases s with
  | constant number => cases mode <;> exact .none
  | die count letter sides =>
    have hsides := sides.read?_digits
    cases count with
    | some count =>
      have hcount := count.read?_digits
      cases mode <;> exact .some (Term.read_eq_ok_iff.2 ⟨_, _, hcount, hsides, rfl, hs _ rfl⟩)
    | none =>
      cases mode with
      | average => exact .some (Term.read_eq_ok_iff.2 ⟨_, _, rfl, hsides, rfl, hs _ rfl⟩)
      | simulate => exact .none

theorem readConstant_digits? (s : Summand) :
    Option.Rel (fun digits k => readConstant digits = .ok k) s.digits? s.constant? := by
  cases s with
  | die count letter sides => exact .none
  | constant number =>
    refine .some ?_
    rw [readConstant, number.read?_digits]

/-- What is written is read, unless the `mode` takes none of its dice. -/
theorem read_written_eq (mode : Mode) {s : Summand} {ss : List Summand} (die : s.isDie = true)
    (sound : ∀ t ∈ s :: ss, ∀ d, t.dice? mode = some d → d.Sound mode) :
    Formula.read mode (written (s :: ss)) =
      if (s :: ss).filterMap (dice? mode) = [] then .error (.noDice (written (s :: ss)))
      else .ok ⟨(s :: ss).filterMap (dice? mode), (s :: ss).filterMap constant?⟩ := by
  have hdice := mapM_eq_ok_iff.2 (forall₂_filterMap fun t ht => read_term? (sound t ht))
  have hconstants := mapM_eq_ok_iff.2
    (forall₂_filterMap fun t (_ : t ∈ s :: ss) => readConstant_digits? t)
  rw [Formula.read_eq, terms_written, constantTerms_written die, hdice, hconstants]
  cases (s :: ss).filterMap (dice? mode) <;> rfl

theorem dice?_average_of_simulate {s : Summand} {d : Dice} (h : s.dice? .simulate = some d) :
    s.dice? .average = some d := by
  cases s with
  | constant number => cases h
  | die count letter sides =>
    cases count with
    | none => cases h
    | some count => exact h

theorem read_average_written {s : Summand} {ss : List Summand} (die : s.isDie = true)
    (sound : ∀ t ∈ s :: ss, ∀ d, t.dice? .average = some d → d.Sound .average) :
    Formula.read .average (written (s :: ss)) =
      .ok ⟨(s :: ss).filterMap (dice? .average), (s :: ss).filterMap constant?⟩ := by
  rw [read_written_eq .average die sound, if_neg]
  cases s with
  | constant number => cases die
  | die count letter sides => exact List.cons_ne_nil _ _

theorem Formula.average_eq_ceil (f : Formula) :
    f.average =
      (f.dice.map fun d => ⌈((d.count * (d.sides + 1) : Int) : ℚ) / 2⌉).sum +
        f.constants.sum := by
  have hdice : f.dice.map Dice.average =
      f.dice.map fun d => ⌈((d.count * (d.sides + 1) : Int) : ℚ) / 2⌉ :=
    List.map_congr_left fun d _ => d.average_eq_ceil
  rw [Formula.average, hdice]

/-! ## Discovery -/

theorem isBlank_of_isDigit {c : Char} (h : isDigit c = true) : isBlank c = false := by
  cases hb : isBlank c with
  | false => rfl
  | true => rw [isDigit_of_isBlank hb] at h; cases h

theorem isBlank_of_isMark {c : Char} (h : isMark c = true) : isBlank c = false := by
  cases hb : isBlank c with
  | false => rfl
  | true => rw [isMark_of_isBlank hb] at h; cases h

theorem no_blank_text (s : Summand) : ∀ c ∈ s.text, isBlank c = false := by
  have hfigures : ∀ (w : Figures), ∀ c ∈ w.digits, isBlank c = false :=
    fun w c hc => isBlank_of_isDigit (w.all c hc)
  intro c hc
  cases s with
  | constant number => exact hfigures number c hc
  | die count letter sides =>
    rcases List.mem_append.1 hc with hcount | hdie
    · cases count with
      | none => cases hcount
      | some count => exact hfigures count c hcount
    · rcases List.mem_cons.1 hdie with rfl | hsides
      · exact isBlank_of_isMark letter.isMark
      · exact hfigures sides c hsides

theorem no_blank_written (s : Summand) (ss : List Summand) :
    ∀ c ∈ written (s :: ss), isBlank c = false := by
  intro c hc
  rw [written_cons, List.mem_append, continued, List.mem_flatMap] at hc
  rcases hc with hc | ⟨t, -, hc⟩
  · exact no_blank_text s c hc
  · rcases List.mem_cons.1 hc with rfl | hc
    · decide
    · exact no_blank_text t c hc

/-- A text that begins with a die is its own formula. -/
theorem wordFormula_written {s : Summand} (die : s.isDie = true) (ss : List Summand) :
    wordFormula (written (s :: ss)) = some (written (s :: ss)) := by
  rw [written_cons]
  cases s with
  | constant number => cases die
  | die count letter sides =>
    have hmark := letter.isMark
    have hleads : leadsDie (letter.char :: (sides.digits ++ continued ss)) = true := by
      obtain ⟨x, xs, hx⟩ := List.exists_cons_of_ne_nil sides.ne_nil
      have hdigit := sides.all x (by rw [hx]; exact List.mem_cons_self)
      rw [hx]
      exact Bool.and_eq_true_iff.2 ⟨hmark, hdigit⟩
    cases count with
    | none =>
      show wordFormula (letter.char :: (sides.digits ++ continued ss)) = _
      rw [wordFormula_single (isDigit_of_isMark hmark), if_pos hleads]
      rfl
    | some count =>
      have htext : (Summand.die (some count) letter sides).text ++ continued ss =
          count.digits ++ letter.char :: (sides.digits ++ continued ss) := by
        simp [text]
      rw [htext, wordFormula_number count.all
        (noDigitAhead_cons (isDigit_of_isMark hmark) _), if_pos hleads]

theorem discover_written {s : Summand} (die : s.isDie = true) (ss : List Summand) :
    discover (written (s :: ss)) = .ok [written (s :: ss)] := by
  have hself := wordFormula_written die ss
  have hne : written (s :: ss) ≠ [] := by
    intro hnil
    rw [hnil, wordFormula_nil] at hself
    cases hself
  apply discover_eq_ok_iff.2
  refine ⟨?_, List.cons_ne_nil _ _⟩
  rw [formulas_eq_words, words_of_no_blank hne (no_blank_written s ss),
    List.filterMap_cons_some hself]
  rfl

/-! ## Writing, then reading -/

/-- The text of `all` summands, a die first, is one formula. Average mode reads all its dice and
constants, and adds up the means of the dice, each rounded up, and the constants. Simulate mode
reads its counted dice and all constants, and refuses it just when it has no counted die. -/
theorem read_written {s : Summand} {ss : List Summand} (die : s.isDie = true)
    (pos : ∀ t ∈ s :: ss, ∀ d, t.dice? .average = some d → 1 ≤ d.count ∧ 1 ≤ d.sides) :
    let all := s :: ss
    let f := written all
    discover f = .ok [f] ∧
      Formula.read .average f = .ok ⟨all.filterMap (dice? .average), all.filterMap constant?⟩ ∧
      (∀ bytes, (evaluate .average f).Gives bytes
        (((all.filterMap (dice? .average)).map fun d =>
            ⌈((d.count * (d.sides + 1) : Int) : ℚ) / 2⌉).sum +
          (all.filterMap constant?).sum) bytes) ∧
      ((∀ t ∈ all, ∀ d, t.dice? .simulate = some d → d.sides ≤ byteDomain) →
        (all.filterMap (dice? .simulate) ≠ [] →
          Formula.read .simulate f =
            .ok ⟨all.filterMap (dice? .simulate), all.filterMap constant?⟩) ∧
        (Formula.read .simulate f = .error (.noDice f) ↔
          all.filterMap (dice? .simulate) = [])) ∧
      ∀ n h, (Figures.ofNat n h).value = n := by
  intro all f
  have haverage : Formula.read .average f =
      .ok ⟨all.filterMap (dice? .average), all.filterMap constant?⟩ := by
    refine read_average_written die fun t ht d hd => ?_
    obtain ⟨hcount, hsides⟩ := pos t ht d hd
    exact ⟨hcount, hsides, fun hm => by cases hm⟩
  refine ⟨discover_written die ss, haverage, fun bytes => ?_, fun few => ?_,
    Figures.value_ofNat⟩
  · have hgives := gives_average_of_read haverage bytes
    rw [Formula.average_eq_ceil] at hgives
    exact hgives
  · have hsimulate := read_written_eq .simulate die fun t ht d hd => by
      obtain ⟨hcount, hsides⟩ := pos t ht d (dice?_average_of_simulate hd)
      exact ⟨hcount, hsides, fun _ => few t ht d hd⟩
    refine ⟨fun hne => hsimulate.trans (if_neg hne), ?_⟩
    rw [show Formula.read .simulate f = _ from hsimulate]
    by_cases hnil : all.filterMap (dice? .simulate) = []
    · simp [all, f, hnil]
    · simp [all, hnil]

/-- A counted die, a constant between dice, a bare die, and a constant with a zero in front. -/
theorem read_written_mixed :
    let two := Figures.ofNat 2 (by decide +kernel)
    let twenty := Figures.ofNat 20 (by decide +kernel)
    let three : Figures := ⟨['0', '3'], List.cons_ne_nil _ _,
      List.forall_mem_cons.2 ⟨by decide, List.forall_mem_singleton.2 (by decide)⟩, by decide⟩
    let s : Summand := .die (some two) ⟨'d', rfl⟩ twenty
    let ss : List Summand := [.constant three, .die none ⟨'D', rfl⟩ twenty, .constant two]
    let all := s :: ss
    let f := written all
    f = ['2', 'd', '2', '0', '+', '0', '3', '+', 'D', '2', '0', '+', '2'] ∧
      s.isDie = true ∧
      (∀ t ∈ all, ∀ d, t.dice? .average = some d → 1 ≤ d.count ∧ 1 ≤ d.sides) ∧
      (∀ t ∈ all, ∀ d, t.dice? .simulate = some d → d.sides ≤ byteDomain) ∧
      discover f = .ok [f] ∧
      Formula.read .average f = .ok ⟨[⟨2, 20⟩, ⟨1, 20⟩], [3, 2]⟩ ∧
      (∀ bytes, (evaluate .average f).Gives bytes 37 bytes) ∧
      Formula.read .simulate f = .ok ⟨[⟨2, 20⟩], [3, 2]⟩ ∧
      Formula.read .simulate f ≠ .error (.noDice f) := by
  intro two twenty three s ss all f
  have hdice : all.filterMap (dice? .average) = [⟨2, 20⟩, ⟨1, 20⟩] := by decide +kernel
  have hcounted : all.filterMap (dice? .simulate) = [⟨2, 20⟩] := by decide +kernel
  have hconstants : all.filterMap constant? = [3, 2] := by decide +kernel
  have hpos : ∀ t ∈ all, ∀ d, t.dice? .average = some d → 1 ≤ d.count ∧ 1 ≤ d.sides := by
    intro t ht d hd
    have hmem : d ∈ all.filterMap (dice? .average) := List.mem_filterMap.2 ⟨t, ht, hd⟩
    have hone : ∀ d ∈ [(⟨2, 20⟩ : Dice), ⟨1, 20⟩], 1 ≤ d.count ∧ 1 ≤ d.sides := by decide
    rw [hdice] at hmem
    exact hone d hmem
  have hfew : ∀ t ∈ all, ∀ d, t.dice? .simulate = some d → d.sides ≤ byteDomain := by
    intro t ht d hd
    have hmem : d ∈ all.filterMap (dice? .simulate) := List.mem_filterMap.2 ⟨t, ht, hd⟩
    rw [hcounted] at hmem
    obtain rfl := List.mem_singleton.1 hmem
    decide
  have hdie : s.isDie = true := rfl
  obtain ⟨hfound, haverage, htotal, hsimulate, -⟩ := read_written hdie hpos
  obtain ⟨hread, hrefused⟩ := hsimulate hfew
  have hne : all.filterMap (dice? .simulate) ≠ [] := by
    rw [hcounted]
    exact List.cons_ne_nil _ _
  refine ⟨by decide +kernel, hdie, hpos, hfew, hfound, ?_, fun bytes => ?_, ?_,
    fun h => hne (hrefused.1 h)⟩
  · rw [← hdice, ← hconstants]
    exact haverage
  · have hsum := htotal bytes
    rw [hdice, hconstants] at hsum
    norm_num at hsum
    exact hsum
  · rw [← hcounted, ← hconstants]
    exact hread hne

end DiceFormula
