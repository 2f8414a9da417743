import DiceFormula.Formula.Term
import DiceFormula.Proofs.Text.Cutting
import Mathlib.Data.List.SplitBy
import Mathlib.Data.List.TakeWhile

/-!
# Chains of digit runs

The dice of a formula, said of its characters. Runs of digits between which
nothing but the letter of a die stands form a chain. Simulate mode takes the
runs of a chain two by two, as count and sides; average mode takes the first
run of a chain for a count unless a die letter stands before it, and every
other run for sides (`Mode.terms_lex`).
-/

namespace DiceFormula

/-- A longest run of `digits`, and what stands between it and the run before. -/
structure DigitRun where
  before : List Char
  digits : List Char
  deriving DecidableEq, Repr

theorem dropWhile_not_digit (text : List Char) :
    (text.dropWhile fun c => !isDigit c) = [] ∨
      ∃ c cs, (text.dropWhile fun c => !isDigit c) = c :: cs ∧ isDigit c = true := by
  have h := List.head?_dropWhile_not (fun c => !isDigit c) text
  cases hr : text.dropWhile fun c => !isDigit c with
  | nil => exact .inl rfl
  | cons c cs =>
    rw [hr] at h
    exact .inr ⟨c, cs, rfl, by simpa using h⟩

def digitRuns (text : List Char) : List DigitRun :=
  let rest := text.dropWhile fun c => !isDigit c
  if rest = [] then []
  else
    ⟨text.takeWhile fun c => !isDigit c, rest.takeWhile isDigit⟩ ::
      digitRuns (rest.dropWhile isDigit)
termination_by text.length
decreasing_by
  rename_i h
  rcases dropWhile_not_digit text with hn | ⟨c, cs, hr, hc⟩
  · exact absurd hn h
  · have hle : (c :: cs).length ≤ text.length := hr ▸ (List.dropWhile_sublist _).length_le
    have hlt : (cs.dropWhile isDigit).length ≤ cs.length := (List.dropWhile_sublist _).length_le
    rw [hr, List.dropWhile_cons_of_pos hc]
    rw [List.length_cons] at hle
    omega

namespace DigitRun

def letter (r : DigitRun) : Char := r.before.getLast?.getD 'd'

/-- A die letter stands right before the run. -/
def isMarked (r : DigitRun) : Bool := r.before.getLast?.any isMark

/-- Nothing but a die letter stands between `r` and the run before. -/
def isLinked (r : DigitRun) : Bool :=
  match r.before with
  | [c] => isMark c
  | _ => false

/-- The die without a count that has `r` for its sides. -/
def bare (r : DigitRun) : Term := ⟨none, r.letter, r.digits⟩

def pair (count sides : DigitRun) : Term := ⟨some count.digits, sides.letter, sides.digits⟩

/-- Two by two; an odd last run is no die. -/
def pairs : List DigitRun → List Term
  | count :: sides :: rs => pair count sides :: pairs rs
  | _ => []

/-- Every die of a chain, with or without a count. -/
def diceOf : List DigitRun → List Term
  | [] => []
  | first :: later =>
    if first.isMarked then (first :: later).map bare
    else
      match later with
      | [] => []
      | second :: later => pair first second :: later.map bare

end DigitRun

open DigitRun

/-- The longest sequences of runs each of which is linked to the one before. -/
def chainsOf (rs : List DigitRun) : List (List DigitRun) :=
  rs.splitBy fun _ next => next.isLinked

def chains (text : List Char) : List (List DigitRun) :=
  chainsOf (digitRuns text)

def Mode.chainTerms : Mode → List DigitRun → List Term
  | average => diceOf
  | simulate => pairs

/-! ## Runs and lexemes -/

def DigitRun.lexemes (r : DigitRun) : List Lexeme :=
  r.before.map Lexeme.ofSingle ++ [.number r.digits]

/-- A text is its `digitRuns`, each with what stands before it, and what stands after the last. -/
theorem lex_eq_digitRuns (text : List Char) :
    ∃ after : List Char,
      lex text = (digitRuns text).flatMap lexemes ++ after.map Lexeme.ofSingle := by
  fun_induction digitRuns text with
  | case1 text rest hr =>
    have hall : ∀ c ∈ text, isDigit c = false := by
      have := List.dropWhile_eq_nil_iff.1 hr
      simpa using this
    refine ⟨text, ?_⟩
    have h := lex_singles hall []
    rw [List.append_nil] at h
    rw [h]
    simp
  | case2 text rest hr ih =>
    obtain ⟨after, ih⟩ := ih
    refine ⟨after, ?_⟩
    have hbefore : ∀ c ∈ text.takeWhile fun c => !isDigit c, isDigit c = false := fun c hc => by
      simpa using List.mem_takeWhile_imp hc
    have hdigits : ∀ c ∈ rest.takeWhile isDigit, isDigit c = true := fun c hc =>
      List.mem_takeWhile_imp hc
    have hne : rest.takeWhile isDigit ≠ [] := by
      rcases dropWhile_not_digit text with hn | ⟨c, cs, hc, hd⟩
      · exact absurd hn hr
      · rw [show rest = c :: cs from hc, List.takeWhile_cons_of_pos hd]
        exact List.cons_ne_nil _ _
    calc lex text
        = lex (text.takeWhile (fun c => !isDigit c) ++
            (rest.takeWhile isDigit ++ rest.dropWhile isDigit)) := by
          rw [List.takeWhile_append_dropWhile, List.takeWhile_append_dropWhile]
      _ = _ := by
          rw [lex_singles hbefore, lex_number hne hdigits (noDigitAhead_dropWhile rest), ih]
          simp [lexemes]

/-! ## Chains -/

theorem isChain_linked {first : DigitRun} {later : List DigitRun}
    (h : ∀ r ∈ later, r.isLinked = true) :
    (first :: later).IsChain fun _ next => next.isLinked = true := by
  induction later generalizing first with
  | nil => exact List.isChain_singleton first
  | cons r later ih =>
    obtain ⟨hr, hlater⟩ := List.forall_mem_cons.1 h
    exact List.isChain_cons_cons.2 ⟨hr, ih hlater⟩

/-- A chain goes on for as long as the runs are linked. -/
theorem chainsOf_cons (first : DigitRun) (rs : List DigitRun) :
    chainsOf (first :: rs) =
      (first :: rs.takeWhile isLinked) :: chainsOf (rs.dropWhile isLinked) := by
  have hlinked : ∀ r ∈ rs.takeWhile isLinked, r.isLinked = true := fun r hr =>
    List.mem_takeWhile_imp hr
  have hsplit : first :: rs = (first :: rs.takeWhile isLinked) ++ rs.dropWhile isLinked := by
    rw [List.cons_append, List.takeWhile_append_dropWhile]
  rw [chainsOf, hsplit, List.splitBy_append, List.splitBy_of_isChain (List.cons_ne_nil _ _)
    (isChain_linked hlinked)]
  · rfl
  · intro _ _ r hr
    have := List.head?_dropWhile_not isLinked rs
    rw [Option.mem_def.1 hr] at this
    simpa using this

/-- No letter and sides come first that would make a die of a number. -/
def Loose (ls : List Lexeme) : Prop :=
  ∀ letter sides rest, ls ≠ .mark letter :: .number sides :: rest

theorem Mode.terms_number (mode : Mode) {ls : List Lexeme} (h : Loose ls) (digits : List Char) :
    mode.terms (.number digits :: ls) = mode.terms ls := by
  rcases ls with _ | ⟨l, _ | ⟨m, ls⟩⟩
  · cases mode <;> rfl
  · cases mode <;> cases l <;> rfl
  · cases l with
    | mark letter =>
      cases m with
      | number sides => exact absurd rfl (h letter sides ls)
      | _ => cases mode <;> rfl
    | _ => cases mode <;> rfl

theorem loose_singles (cs : List Char) : Loose (cs.map Lexeme.ofSingle) := by
  intro letter sides rest h
  rcases cs with _ | ⟨c, _ | ⟨d, cs⟩⟩
  · cases h
  · cases (List.cons.inj h).2
  · exact Lexeme.ofSingle_ne_number d sides (List.cons.inj (List.cons.inj h).2).1

theorem loose_of_not_isLinked {r : DigitRun} (h : r.isLinked = false) (ls : List Lexeme) :
    Loose (r.lexemes ++ ls) := by
  intro letter sides rest he
  obtain ⟨before, digits⟩ := r
  rcases before with _ | ⟨c, _ | ⟨d, before⟩⟩
  · cases he
  · have hc := (Lexeme.isMark_of_ofSingle (List.cons.inj he).1).1
    exact absurd (show isMark c = false from h) (by rw [hc]; decide)
  · exact Lexeme.ofSingle_ne_number d sides (List.cons.inj (List.cons.inj he).2).1

/-- A `scan` that takes chain by chain takes the chains of all runs. -/
theorem scan_chainsOf {scan : List Lexeme → List Term} {terms : List DigitRun → List Term}
    (nil : ∀ cs : List Char, scan (cs.map Lexeme.ofSingle) = [])
    (chain : ∀ first later ls, (∀ r ∈ later, r.isLinked = true) → Loose ls →
      scan ((first :: later).flatMap lexemes ++ ls) = terms (first :: later) ++ scan ls)
    (rs : List DigitRun) (after : List Char) :
    scan (rs.flatMap lexemes ++ after.map Lexeme.ofSingle) = (chainsOf rs).flatMap terms := by
  induction hn : rs.length using Nat.strongRecOn generalizing rs with
  | _ n ih =>
    cases rs with
    | nil => exact nil after
    | cons first rs =>
      have hlt : (rs.dropWhile isLinked).length < n := by
        have := (List.dropWhile_sublist (l := rs) isLinked).length_le
        rw [← hn, List.length_cons]
        omega
      have hrest := ih _ hlt (rs.dropWhile isLinked) rfl
      have hloose :
          Loose ((rs.dropWhile isLinked).flatMap lexemes ++ after.map Lexeme.ofSingle) := by
        cases hr : rs.dropWhile isLinked with
        | nil => exact loose_singles after
        | cons next rest =>
          have hnext := List.head?_dropWhile_not isLinked rs
          rw [hr] at hnext
          rw [List.flatMap_cons, List.append_assoc]
          exact loose_of_not_isLinked (by simpa using hnext) _
      calc scan ((first :: rs).flatMap lexemes ++ after.map Lexeme.ofSingle)
          = scan ((first :: rs.takeWhile isLinked).flatMap lexemes ++
              ((rs.dropWhile isLinked).flatMap lexemes ++ after.map Lexeme.ofSingle)) := by
            rw [← List.append_assoc, ← List.flatMap_append, List.cons_append,
              List.takeWhile_append_dropWhile]
        _ = terms (first :: rs.takeWhile isLinked) ++ scan
              ((rs.dropWhile isLinked).flatMap lexemes ++ after.map Lexeme.ofSingle) :=
            chain _ _ _ (fun r hr => List.mem_takeWhile_imp hr) hloose
        _ = (chainsOf (first :: rs)).flatMap terms := by
            rw [hrest, chainsOf_cons, List.flatMap_cons]

theorem lexemes_of_isLinked {r : DigitRun} (h : r.isLinked = true) :
    r.lexemes = [.mark r.letter, .number r.digits] := by
  obtain ⟨before, digits⟩ := r
  rcases before with _ | ⟨c, _ | ⟨d, before⟩⟩
  · cases h
  · have hc : isMark c = true := h
    simp [lexemes, Lexeme.ofSingle_of_isMark hc, letter]
  · cases h

theorem isMarked_of_isLinked {r : DigitRun} (h : r.isLinked = true) : r.isMarked = true := by
  obtain ⟨before, digits⟩ := r
  rcases before with _ | ⟨c, _ | ⟨d, before⟩⟩
  · cases h
  · exact h
  · cases h

/-! ### Simulate mode -/

theorem countedTerms_singles (cs : List Char) (ls : List Lexeme) :
    countedTerms (cs.map Lexeme.ofSingle ++ ls) = countedTerms ls := by
  induction cs with
  | nil => rfl
  | cons c cs ih =>
    rw [List.map_cons, List.cons_append, ← ih]
    cases hs : Lexeme.ofSingle c with
    | number digits => exact absurd hs (Lexeme.ofSingle_ne_number c digits)
    | _ => rfl

/-- The first two runs of a chain are a die, and what they leave is a chain again. -/
theorem countedTerms_chain : ∀ (first : DigitRun) (later : List DigitRun) (ls : List Lexeme),
    (∀ r ∈ later, r.isLinked = true) → Loose ls →
      countedTerms ((first :: later).flatMap lexemes ++ ls) =
        pairs (first :: later) ++ countedTerms ls
  | first, [], ls, _, loose => by
    rw [List.flatMap_singleton, lexemes, List.append_assoc, countedTerms_singles]
    exact Mode.terms_number .simulate loose first.digits
  | first, second :: later, ls, linked, loose => by
    obtain ⟨hs, hlater⟩ := List.forall_mem_cons.1 linked
    have hstep : countedTerms ((first :: second :: later).flatMap lexemes ++ ls) =
        pair first second :: countedTerms (later.flatMap lexemes ++ ls) := by
      rw [List.flatMap_cons, List.flatMap_cons, lexemes_of_isLinked hs, lexemes,
        List.append_assoc, List.append_assoc, countedTerms_singles]
      rfl
    rw [hstep]
    cases later with
    | nil => rfl
    | cons third later =>
      rw [countedTerms_chain third later ls (List.forall_mem_cons.1 hlater).2 loose]
      rfl

/-! ### Average mode -/

theorem singles_ne_number (cs digits : List Char) (rest : List Lexeme) :
    cs.map Lexeme.ofSingle ≠ .number digits :: rest := by
  cases cs with
  | nil => exact fun h => by cases h
  | cons c cs => exact fun h => Lexeme.ofSingle_ne_number c digits (List.cons.inj h).1

theorem diceTerms_single (c : Char) {ls : List Lexeme}
    (h : ∀ digits rest, ls ≠ .number digits :: rest) :
    diceTerms (Lexeme.ofSingle c :: ls) = diceTerms ls := by
  cases hs : Lexeme.ofSingle c with
  | number digits => exact absurd hs (Lexeme.ofSingle_ne_number c digits)
  | mark letter =>
    rcases ls with _ | ⟨l, ls⟩
    · rfl
    · cases l with
      | number digits => exact absurd rfl (h digits ls)
      | _ => rfl
  | _ => rfl

theorem diceTerms_singles (cs : List Char) : diceTerms (cs.map Lexeme.ofSingle) = [] := by
  induction cs with
  | nil => rfl
  | cons c cs ih => rw [List.map_cons, diceTerms_single c (singles_ne_number cs), ih]

theorem diceTerms_of_not_isMark {c : Char} (hm : isMark c = false) (ls : List Lexeme) :
    diceTerms (Lexeme.ofSingle c :: ls) = diceTerms ls := by
  cases hs : Lexeme.ofSingle c with
  | number digits => exact absurd hs (Lexeme.ofSingle_ne_number c digits)
  | mark letter => rw [(Lexeme.isMark_of_ofSingle hs).1] at hm; cases hm
  | _ => rfl

/-- A marked run is the sides of a bare die; any other is still to be looked at. -/
theorem diceTerms_lexemes (r : DigitRun) (ls : List Lexeme) :
    diceTerms (r.lexemes ++ ls) =
      if r.isMarked then r.bare :: diceTerms ls else diceTerms (.number r.digits :: ls) := by
  obtain ⟨before, digits⟩ := r
  induction before with
  | nil => rfl
  | cons c before ih =>
    cases before with
    | nil =>
      show diceTerms (Lexeme.ofSingle c :: .number digits :: ls) =
        if isMark c then ⟨none, c, digits⟩ :: diceTerms ls else diceTerms (.number digits :: ls)
      cases hm : isMark c with
      | true => rw [Lexeme.ofSingle_of_isMark hm]; rfl
      | false => exact diceTerms_of_not_isMark hm _
    | cons d before =>
      have hskip : diceTerms (lexemes ⟨c :: d :: before, digits⟩ ++ ls) =
          diceTerms (lexemes ⟨d :: before, digits⟩ ++ ls) :=
        diceTerms_single c fun _ _ h => Lexeme.ofSingle_ne_number d _ (List.cons.inj h).1
      rw [hskip, ih]
      rfl

theorem diceTerms_later {later : List DigitRun} (linked : ∀ r ∈ later, r.isLinked = true)
    (ls : List Lexeme) :
    diceTerms (later.flatMap lexemes ++ ls) = later.map bare ++ diceTerms ls := by
  induction later with
  | nil => rfl
  | cons r later ih =>
    obtain ⟨hr, hlater⟩ := List.forall_mem_cons.1 linked
    rw [List.flatMap_cons, List.append_assoc, diceTerms_lexemes, if_pos (isMarked_of_isLinked hr),
      ih hlater]
    rfl

theorem diceTerms_chain (first : DigitRun) (later : List DigitRun) (ls : List Lexeme)
    (linked : ∀ r ∈ later, r.isLinked = true) (loose : Loose ls) :
    diceTerms ((first :: later).flatMap lexemes ++ ls) =
      diceOf (first :: later) ++ diceTerms ls := by
  rw [List.flatMap_cons, List.append_assoc, diceTerms_lexemes]
  by_cases hm : first.isMarked = true
  · rw [if_pos hm, diceTerms_later linked]
    cases later <;> simp [diceOf, hm]
  · rw [if_neg hm]
    cases later with
    | nil =>
      have hskip : diceTerms (.number first.digits :: ls) = diceTerms ls :=
        Mode.terms_number .average loose first.digits
      simpa [diceOf, hm] using hskip
    | cons second later =>
      obtain ⟨hs, hlater⟩ := List.forall_mem_cons.1 linked
      rw [List.flatMap_cons, lexemes_of_isLinked hs, List.append_assoc]
      show pair first second :: diceTerms (later.flatMap lexemes ++ ls) = _
      rw [diceTerms_later hlater]
      simp [diceOf, hm]

/-- The dice that a `mode` takes from a text are those it takes from its chains, in order. -/
theorem Mode.terms_lex (mode : Mode) (text : List Char) :
    mode.terms (lex text) = (chains text).flatMap mode.chainTerms := by
  obtain ⟨after, hlex⟩ := lex_eq_digitRuns text
  rw [hlex]
  cases mode with
  | average => exact scan_chainsOf diceTerms_singles diceTerms_chain (digitRuns text) after
  | simulate =>
    exact scan_chainsOf (fun cs => by simpa [countedTerms] using countedTerms_singles cs [])
      countedTerms_chain (digitRuns text) after

end DiceFormula
