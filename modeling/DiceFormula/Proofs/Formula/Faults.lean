import DiceFormula.Proofs.Formula.Patterns
import DiceFormula.Proofs.Roll.Starving

/-!
# What is wrong with a text

A term can be wrong for four reasons, and the first that applies is named
(`Term.fault?`). Of a text that cannot be read the first term that is wrong is
named, whatever else there is; then the want of any term; then the first
constant that is too long (`Verdict`). A text is read just when none of this
applies, and then nothing of it is left out (`read_iff_verdict`).
-/

namespace DiceFormula

def Numeral.isTooLong (digits : List Char) : Bool := limit < digits.length

namespace Term

/-- Whether a reason applies to `t`, the other reasons left aside. -/
def isWrong (mode : Mode) (t : Term) : Reason → Bool
  | .tooLong => t.count.any Numeral.isTooLong || Numeral.isTooLong t.sides
  | .noDie => t.count.any fun digits => Numeral.value digits = 0
  | .noSide => Numeral.value t.sides = 0
  | .tooManySides => mode = .simulate ∧ byteDomain < Numeral.value t.sides
  | .worded _ => false

/-- The first reason that applies. -/
def fault? (mode : Mode) (t : Term) : Option Reason :=
  [Reason.tooLong, .noDie, .noSide, .tooManySides].find? (t.isWrong mode)

/-- The dice that `t` stands for; a bare die is one die. -/
def dice (t : Term) : Dice := ⟨(t.count.elim 1 Numeral.value : Nat), Numeral.value t.sides⟩

end Term

/-- What becomes of a text in which the terms `ts` and the constants `ks` are found. -/
inductive Verdict (mode : Mode) (text : List Char) (ts : List Term) (ks : List (List Char)) :
    Except DiceError Formula → Prop where
  /-- The first term that is wrong is named, whatever stands behind it. -/
  | term {t : Term} {reason : Reason} :
      ts.find? (fun t => (t.fault? mode).isSome) = some t → t.fault? mode = some reason →
      Verdict mode text ts ks (.error (.malformed t.text reason))
  /-- Constants are not looked at where there is no term. -/
  | empty : ts = [] → Verdict mode text ts ks (.error (.noDice text))
  | constant {k : List Char} :
      ts ≠ [] → (∀ t ∈ ts, t.fault? mode = none) → ks.find? Numeral.isTooLong = some k →
      Verdict mode text ts ks (.error (.malformed k .tooLong))
  | sound :
      ts ≠ [] → (∀ t ∈ ts, t.fault? mode = none) →
      (∀ k ∈ ks, Numeral.isTooLong k = false) →
      Verdict mode text ts ks
        (.ok ⟨ts.map Term.dice, ks.map fun k => (Numeral.value k : Int)⟩)

/-! ## Lists that are read one by one -/

section

variable {ε α β : Type} {f : α → Except ε β} {p : α → Bool} {value : α → β}

/-- What fails where `p` holds fails at the first such place. -/
theorem mapM_of_find?_eq_some {x : α} {e : ε} {xs : List α}
    (ok : ∀ y ∈ xs, p y = false → f y = .ok (value y)) (h : xs.find? p = some x)
    (hx : f x = .error e) : xs.mapM f = .error e := by
  induction xs with
  | nil => cases h
  | cons y xs ih =>
    obtain ⟨hy, hxs⟩ := List.forall_mem_cons.1 ok
    rw [List.mapM_cons]
    cases hp : p y with
    | true =>
      rw [List.find?_cons_of_pos hp] at h
      cases h
      rw [hx]
      rfl
    | false =>
      rw [List.find?_cons_of_neg (by rw [hp]; decide)] at h
      rw [hy hp, ih hxs h]
      rfl

theorem mapM_of_forall {xs : List α} (ok : ∀ y ∈ xs, f y = .ok (value y)) :
    xs.mapM f = .ok (xs.map value) := by
  rw [mapM_eq_ok_iff, List.forall₂_map_right_iff, List.forall₂_same]
  exact ok

end

/-! ## One term, one constant -/

namespace Numeral

theorem read?_of_isTooLong {digits : List Char} (h : isTooLong digits = true) :
    read? digits = none :=
  read?_eq_none_iff.2 (of_decide_eq_true h)

theorem read?_of_not_isTooLong {digits : List Char} (h : isTooLong digits = false) :
    read? digits = some (value digits) :=
  read?_of_length_le (Nat.le_of_not_lt (of_decide_eq_false h))

end Numeral

namespace Term

variable {mode : Mode} {t : Term}

theorem readCount?_eq (t : Term) :
    t.readCount? =
      if t.count.any Numeral.isTooLong then none else some (t.count.elim 1 Numeral.value) := by
  unfold readCount?
  cases t.count with
  | none => rfl
  | some digits =>
    cases h : Numeral.isTooLong digits with
    | true => simp [h, Numeral.read?_of_isTooLong h]
    | false => simp [h, Numeral.read?_of_not_isTooLong h]

theorem isWrong_noDie : t.isWrong mode .noDie = decide (t.count.elim 1 Numeral.value = 0) := by
  rw [isWrong]
  cases t.count with
  | none => rfl
  | some digits => rfl

/-- `check` goes through the reasons in order. -/
theorem check_eq (mode : Mode) (t : Term) :
    t.check mode = match t.fault? mode with
      | some reason => .error reason
      | none => .ok t.dice := by
  rw [fault?, check, readCount?_eq]
  cases hcount : t.count.any Numeral.isTooLong with
  | true => simp [isWrong, hcount]
  | false =>
    cases hsides : Numeral.isTooLong t.sides with
    | true => simp [isWrong, hcount, hsides, Numeral.read?_of_isTooLong hsides]
    | false =>
      have htooLong : t.isWrong mode .tooLong = false := by simp [isWrong, hcount, hsides]
      rw [Numeral.read?_of_not_isTooLong hsides, List.find?_cons, htooLong, List.find?_cons,
        isWrong_noDie]
      by_cases hdie : t.count.elim 1 Numeral.value = 0
      · simp [hdie]
      · by_cases hside : Numeral.value t.sides = 0
        · simp [hdie, isWrong, hside]
        · by_cases hmany : mode = .simulate ∧ byteDomain < Numeral.value t.sides
          · simp [hdie, isWrong, hside, hmany]
          · simp [hdie, isWrong, hside, hmany, dice]

theorem read_of_fault? {reason : Reason} (h : t.fault? mode = some reason) :
    t.read mode = .error (.malformed t.text reason) := by
  rw [read, check_eq, h]
  rfl

theorem read_of_fault?_eq_none (h : t.fault? mode = none) : t.read mode = .ok t.dice := by
  rw [read, check_eq, h]
  rfl

end Term

theorem readConstant_of_isTooLong {digits : List Char} (h : Numeral.isTooLong digits = true) :
    readConstant digits = .error (.malformed digits .tooLong) := by
  rw [readConstant, Numeral.read?_of_isTooLong h]

theorem readConstant_of_not_isTooLong {digits : List Char}
    (h : Numeral.isTooLong digits = false) :
    readConstant digits = .ok (Numeral.value digits : Int) := by
  rw [readConstant, Numeral.read?_of_not_isTooLong h]

/-! ## A whole text -/

section

variable {mode : Mode} {text : List Char}

theorem Verdict.read_eq {r : Except DiceError Formula}
    (h : Verdict mode text (mode.terms (lex text)) (constantTerms (lex text)) r) :
    Formula.read mode text = r := by
  have hterms : ∀ t : Term, t.fault? mode = none → t.read mode = .ok t.dice := fun t =>
    Term.read_of_fault?_eq_none
  rw [Formula.read_eq]
  cases h with
  | term hfirst hfault =>
    rw [mapM_of_find?_eq_some (fun t _ ht => hterms t (by simpa using ht)) hfirst
      (Term.read_of_fault? hfault)]
  | empty hnil =>
    rw [hnil]
    rfl
  | constant hne hsound hfirst =>
    rw [mapM_of_forall fun t ht => hterms t (hsound t ht),
      mapM_of_find?_eq_some (fun k _ => readConstant_of_not_isTooLong) hfirst
        (readConstant_of_isTooLong (List.find?_some hfirst))]
    cases hts : mode.terms (lex text) with
    | nil => exact absurd hts hne
    | cons t ts => rfl
  | sound hne hsound hshort =>
    rw [mapM_of_forall fun t ht => hterms t (hsound t ht),
      mapM_of_forall fun k hk => readConstant_of_not_isTooLong (hshort k hk)]
    cases hts : mode.terms (lex text) with
    | nil => exact absurd hts hne
    | cons t ts => rfl

theorem exists_verdict (mode : Mode) (text : List Char) (ts : List Term) (ks : List (List Char)) :
    ∃ r, Verdict mode text ts ks r := by
  cases hfirst : ts.find? fun t => (t.fault? mode).isSome with
  | some t =>
    have hwrong : (t.fault? mode).isSome = true := by simpa using List.find?_some hfirst
    obtain ⟨reason, hfault⟩ := Option.isSome_iff_exists.1 hwrong
    exact ⟨_, .term hfirst hfault⟩
  | none =>
    have hsound : ∀ t ∈ ts, t.fault? mode = none := fun t ht => by
      simpa using List.find?_eq_none.1 hfirst t ht
    by_cases hne : ts = []
    · exact ⟨_, .empty hne⟩
    · cases hlong : ks.find? Numeral.isTooLong with
      | some k => exact ⟨_, .constant hne hsound hlong⟩
      | none =>
        have hshort : ∀ k ∈ ks, Numeral.isTooLong k = false := fun k hk => by
          simpa using List.find?_eq_none.1 hlong k hk
        exact ⟨_, .sound hne hsound hshort⟩

theorem read_eq_iff {r : Except DiceError Formula} :
    Formula.read mode text = r ↔
      Verdict mode text (mode.terms (lex text)) (constantTerms (lex text)) r := by
  refine ⟨?_, Verdict.read_eq⟩
  rintro rfl
  obtain ⟨r, hr⟩ := exists_verdict mode text (mode.terms (lex text)) (constantTerms (lex text))
  rw [hr.read_eq]
  exact hr

theorem read_eq_noDice_iff {e : List Char} :
    Formula.read mode text = .error (.noDice e) ↔ mode.terms (lex text) = [] ∧ e = text := by
  rw [read_eq_iff]
  refine ⟨fun h => ?_, ?_⟩
  · cases h with
    | empty hnil => exact ⟨hnil, rfl⟩
  · rintro ⟨hnil, rfl⟩
    exact .empty hnil

/-- A text is refused for want of dice or for a term of it. -/
theorem refusal_of_read {e : DiceError} (h : Formula.read mode text = .error e) :
    e = .noDice text ∨ ∃ term reason, e = .malformed term reason := by
  cases read_eq_iff.1 h with
  | term _ _ => exact .inr ⟨_, _, rfl⟩
  | empty _ => exact .inl rfl
  | constant _ _ _ => exact .inr ⟨_, _, rfl⟩

end

/-! ## Counts that are written -/

theorem ne_nil_of_number_mem_lex {text digits : List Char} (h : .number digits ∈ lex text) :
    digits ≠ [] := by
  induction text using cutInduction with
  | nil => cases h
  | single c cs hc ih =>
    rw [lex_single hc, List.mem_cons] at h
    rcases h with h | h
    · exact absurd h.symm (Lexeme.ofSingle_ne_number c digits)
    · exact ih h
  | number ds cs ne all ahead ih =>
    rw [lex_number ne all ahead, List.mem_cons] at h
    rcases h with h | h
    · cases h
      exact ne
    · exact ih h

/-- A count that is written has a digit. -/
theorem Mode.count_ne_nil {mode : Mode} {text : List Char} {t : Term}
    (ht : t ∈ mode.terms (lex text)) : t.count ≠ some [] := by
  intro hnil
  exact ne_nil_of_number_mem_lex (Mode.number_mem_of_mem_terms ht hnil) rfl

/-- `Formula.read` comes to `r` just when `r` is the `Verdict` on the terms `ts` and the constants
`ks`, which are what the pattern searches find. `Formula.parse` draws nothing. -/
theorem read_iff_verdict (mode : Mode) (text : List Char) :
    let ts := mode.terms (lex text)
    let ks := constantTerms (lex text)
    (mode.dicePattern.finds text).map Fit.pieces = ts.map Term.pieces ∧
      (∀ t ∈ ts, t.count ≠ some []) ∧
      (constantPattern.finds text).map Fit.pieces = ks.map (fun digits => [digits]) ∧
      (∀ r, Formula.read mode text = r ↔ Verdict mode text ts ks r) ∧
      ∀ bytes, (Formula.parse mode text).run bytes =
        ⟨(Formula.read mode text).mapError .refused, bytes, Formula.report mode text⟩ :=
  ⟨finds_dicePattern mode text, fun _ => Mode.count_ne_nil, finds_constantPattern text,
    fun _ => read_eq_iff, Formula.run_parse mode text⟩

-- a term without a side, behind one without a die: the first is named
example : Formula.read .average ['0', 'd', '6', '+', '2', 'd', '0'] =
    .error (.malformed ['0', 'd', '6'] .noDie) := by
  decide +kernel

end DiceFormula
