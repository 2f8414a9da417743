import DiceFormula.Formula.Read
import Mathlib.Algebra.Ring.Int.Defs
import Mathlib.Data.List.Forall2

/-!
# What a reading gives

A text is read when every term of it is: the dice and the constants are the
readings of the terms, one for one and in order (`read_eq_ok_iff`), and the
dice that have been read can be rolled in the mode they were read in.
-/

namespace DiceFormula

theorem mapM_eq_ok_iff {ε α β : Type} {f : α → Except ε β} {xs : List α} {ys : List β} :
    xs.mapM f = .ok ys ↔ List.Forall₂ (fun x y => f x = .ok y) xs ys := by
  induction xs generalizing ys with
  | nil =>
    rw [List.mapM_nil, List.forall₂_nil_left_iff]
    exact ⟨fun h => by cases h; rfl, fun h => by rw [h]; rfl⟩
  | cons x xs ih =>
    rw [List.mapM_cons, List.forall₂_cons_left_iff]
    refine ⟨?_, ?_⟩
    · intro h
      cases hx : f x with
      | error e => rw [hx] at h; cases h
      | ok y =>
        cases hxs : xs.mapM f with
        | error e => rw [hx, hxs] at h; cases h
        | ok zs =>
          rw [hx, hxs] at h
          cases h
          exact ⟨y, zs, rfl, ih.1 hxs, rfl⟩
    · rintro ⟨y, zs, hx, hxs, rfl⟩
      rw [hx, ih.2 hxs]
      rfl

theorem exists_of_mapM_eq_error {ε α β : Type} {f : α → Except ε β} {xs : List α} {e : ε}
    (h : xs.mapM f = .error e) : ∃ x ∈ xs, f x = .error e := by
  induction xs with
  | nil => cases h
  | cons x xs ih =>
    rw [List.mapM_cons] at h
    cases hx : f x with
    | error e' =>
      rw [hx] at h
      cases h
      exact ⟨x, List.mem_cons_self, hx⟩
    | ok y =>
      cases hxs : xs.mapM f with
      | error e' =>
        rw [hx, hxs] at h
        cases h
        obtain ⟨z, hz, he⟩ := ih hxs
        exact ⟨z, List.mem_cons_of_mem x hz, he⟩
      | ok ys => rw [hx, hxs] at h; cases h

theorem exists_of_mem_forall₂ {α β : Type} {R : α → β → Prop} {xs : List α} {ys : List β}
    (h : List.Forall₂ R xs ys) {y : β} (hy : y ∈ ys) : ∃ x ∈ xs, R x y := by
  induction h with
  | nil => cases hy
  | cons hxy _ ih =>
    rcases List.mem_cons.1 hy with rfl | hy
    · exact ⟨_, List.mem_cons_self, hxy⟩
    · obtain ⟨x, hx, hR⟩ := ih hy
      exact ⟨x, List.mem_cons_of_mem _ hx, hR⟩

/-- The bounds of dice that can be read, and in simulate mode rolled. -/
structure Dice.Sound (mode : Mode) (d : Dice) : Prop where
  one_le_count : 1 ≤ d.count
  one_le_sides : 1 ≤ d.sides
  sides_le : mode = .simulate → d.sides ≤ byteDomain

theorem Term.sound_of_read {mode : Mode} {t : Term} {d : Dice} (h : t.read mode = .ok d) :
    d.Sound mode := by
  rw [Term.read] at h
  cases hc : t.check mode with
  | error reason => rw [hc] at h; cases h
  | ok d' =>
    rw [hc] at h
    cases h
    obtain ⟨hcount, hsides, hmost⟩ := Term.bounds_of_check hc
    exact ⟨hcount, hsides, hmost⟩

theorem Term.read_eq_ok_iff {mode : Mode} {t : Term} {d : Dice} :
    t.read mode = .ok d ↔
      ∃ count sides : Nat, t.readCount? = some count ∧ Numeral.read? t.sides = some sides ∧
        d = ⟨count, sides⟩ ∧ d.Sound mode := by
  refine ⟨fun h => ?_, ?_⟩
  · have hsound := Term.sound_of_read h
    rw [Term.read, Term.check] at h
    cases hcount : t.readCount? with
    | none => rw [hcount] at h; cases h
    | some count =>
      cases hsides : Numeral.read? t.sides with
      | none => rw [hcount, hsides] at h; cases h
      | some sides =>
        rw [hcount, hsides] at h
        refine ⟨count, sides, rfl, rfl, ?_, hsound⟩
        simp only at h
        split at h
        · cases h
        · split at h
          · cases h
          · split at h
            · cases h
            · cases h
              rfl
  · rintro ⟨count, sides, hcount, hsides, rfl, hs⟩
    have hc : 1 ≤ (count : Int) := hs.one_le_count
    have hone : 1 ≤ (sides : Int) := hs.one_le_sides
    have hmany : ¬ (mode = .simulate ∧ byteDomain < sides) := by
      rintro ⟨hm, hlt⟩
      have hmost : (sides : Int) ≤ byteDomain := hs.sides_le hm
      omega
    rw [Term.read, Term.check, hcount, hsides]
    simp only
    rw [if_neg (by omega), if_neg (by omega), if_neg hmany]
    rfl

namespace Formula

/-- The dice are read first, there must be some, and then the constants are read. -/
theorem read_eq (mode : Mode) (text : List Char) :
    read mode text =
      match (mode.terms (lex text)).mapM (Term.read mode) with
      | .error e => .error e
      | .ok [] => .error (.noDice text)
      | .ok (d :: dice) =>
        match (constantTerms (lex text)).mapM readConstant with
        | .error e => .error e
        | .ok constants => .ok ⟨d :: dice, constants⟩ := by
  rw [read]
  rcases (mode.terms (lex text)).mapM (Term.read mode) with e | _ | ⟨d, dice⟩
  · rfl
  · rfl
  · cases (constantTerms (lex text)).mapM readConstant <;> rfl

theorem read_eq_ok_iff {mode : Mode} {text : List Char} {f : Formula} :
    read mode text = .ok f ↔
      List.Forall₂ (fun t d => Term.read mode t = .ok d) (mode.terms (lex text)) f.dice ∧
        f.dice ≠ [] ∧
        List.Forall₂ (fun digits k => readConstant digits = .ok k) (constantTerms (lex text))
          f.constants := by
  rw [← mapM_eq_ok_iff, ← mapM_eq_ok_iff, read_eq]
  obtain ⟨dice, constants⟩ := f
  rcases (mode.terms (lex text)).mapM (Term.read mode) with e | _ | ⟨d, ds⟩
  · simp
  · simp +contextual
  · cases (constantTerms (lex text)).mapM readConstant <;> simp +contextual [eq_comm]

theorem sound_of_read {mode : Mode} {text : List Char} {f : Formula}
    (h : read mode text = .ok f) : ∀ d ∈ f.dice, d.Sound mode := by
  obtain ⟨hdice, -, -⟩ := read_eq_ok_iff.1 h
  intro d hd
  obtain ⟨t, -, ht⟩ := exists_of_mem_forall₂ hdice hd
  exact Term.sound_of_read ht

end Formula

end DiceFormula
