import DiceFormula.Proofs.Formula.Reading
import DiceFormula.Proofs.Roll.Range
import DiceFormula.Proofs.Roll.Starving
import Mathlib.Algebra.Order.Ring.Int
import Mathlib.Tactic.Linarith
import Mathlib.Tactic.Positivity
import Mathlib.Tactic.Ring

/-!
# The size of totals

The terms of a formula stand in it one after the other, and a number is smaller
than the power of ten that has as many zeros as it has digits. So the total of a
formula has no more digits than the formula has characters
(`total_lt_pow_length`), and the total of a formula that is not too long can be
written.
-/

namespace DiceFormula

namespace Numeral

theorem valueFrom_lt (n : Nat) (ds : List Char) : valueFrom n ds < (n + 1) * 10 ^ ds.length := by
  induction ds generalizing n with
  | nil => simp [valueFrom]
  | cons c ds ih =>
    have hdigit : (digitValue? c).getD 0 < 10 := by
      cases hv : digitValue? c with
      | none => exact Nat.succ_pos 9
      | some v => exact digitValue?_lt hv
    calc valueFrom n (c :: ds)
        = valueFrom (10 * n + (digitValue? c).getD 0) ds := rfl
      _ < (10 * n + (digitValue? c).getD 0 + 1) * 10 ^ ds.length := ih _
      _ ≤ ((n + 1) * 10) * 10 ^ ds.length := Nat.mul_le_mul_right _ (by omega)
      _ = (n + 1) * 10 ^ (c :: ds).length := by rw [List.length_cons, Nat.pow_succ']; ring

theorem value_lt (ds : List Char) : value ds < 10 ^ ds.length := by
  have h := valueFrom_lt 0 ds
  rwa [Nat.zero_add, Nat.one_mul] at h

theorem lt_of_read? {ds : List Char} {n : Nat} (h : read? ds = some n) : n < 10 ^ ds.length := by
  unfold read? at h
  split at h
  · cases h
    exact value_lt ds
  · cases h

theorem writable_of_lt {n : Int} {k : Nat} (nonneg : 0 ≤ n) (lt : n < 10 ^ k) (hk : k ≤ limit) :
    Writable n := by
  have hpow : (10 : Nat) ^ k ≤ 10 ^ limit := Nat.pow_le_pow_right (by decide) hk
  have hcast : n < ((10 ^ k : Nat) : Int) := by rwa [Nat.cast_pow]
  unfold Writable
  rw [Nat.pow_eq]
  omega

theorem not_writable_pow_limit : ¬ Writable ((10 ^ limit : Nat) : Int) := by
  -- for any number of digits, since the power itself is not to be worked out
  have h : ∀ k, ¬ ((10 ^ k : Nat) : Int).natAbs < Nat.pow 10 k := by
    intro k
    rw [Int.natAbs_natCast, Nat.pow_eq]
    exact Nat.lt_irrefl _
  exact h limit

end Numeral

/-! ## Where the terms stand -/

theorem counted_sublist (count : List Char) (letter : Char) (sides : List Char) {ts : List Term}
    {ls : List Lexeme} (h : (ts.flatMap Term.text).Sublist (textOf ls)) :
    ((⟨some count, letter, sides⟩ :: ts : List Term).flatMap Term.text).Sublist
      (textOf (.number count :: .mark letter :: .number sides :: ls)) := by
  simp only [List.flatMap_cons, Term.text, Option.getD_some, textOf_cons, Lexeme.text,
    List.append_assoc, List.cons_append, List.nil_append]
  exact (List.Sublist.refl count).append (((List.Sublist.refl sides).append h).cons_cons letter)

theorem diceTerms_sublist (ls : List Lexeme) :
    ((diceTerms ls).flatMap Term.text).Sublist (textOf ls) := by
  fun_induction diceTerms ls with
  | case1 count letter sides ls ih => exact counted_sublist count letter sides ih
  | case2 letter sides ls ih => exact ((List.Sublist.refl sides).append ih).cons_cons letter
  | case3 l ls _ _ ih =>
    rw [textOf_cons]
    exact ih.trans (List.sublist_append_right _ _)
  | case4 => exact List.Sublist.refl []

theorem countedTerms_sublist (ls : List Lexeme) :
    ((countedTerms ls).flatMap Term.text).Sublist (textOf ls) := by
  fun_induction countedTerms ls with
  | case1 count letter sides ls ih => exact counted_sublist count letter sides ih
  | case2 l ls _ ih =>
    rw [textOf_cons]
    exact ih.trans (List.sublist_append_right _ _)
  | case3 => exact List.Sublist.refl []

/-- The terms of `ls` stand in it in order, and none begins before the last one has ended. -/
theorem Mode.terms_sublist (mode : Mode) (ls : List Lexeme) :
    ((mode.terms ls).flatMap Term.text).Sublist (textOf ls) := by
  cases mode with
  | average => exact diceTerms_sublist ls
  | simulate => exact countedTerms_sublist ls

/-- The constants of `ls` stand in it in order, each behind a plus sign of its own. -/
theorem constantTerms_sublist (ls : List Lexeme) :
    ((constantTerms ls).flatMap fun digits => '+' :: digits).Sublist (textOf ls) := by
  fun_induction constantTerms ls with
  | case1 digits ls _ ih =>
    simp only [List.flatMap_cons, textOf_cons, Lexeme.text, List.cons_append, List.nil_append]
    exact ((List.Sublist.refl digits).append ih).cons_cons '+'
  | case2 digits ls _ ih =>
    simp only [textOf_cons, Lexeme.text, List.cons_append, List.nil_append]
    exact (ih.trans (List.sublist_append_right _ _)).cons '+'
  | case3 l ls _ ih =>
    rw [textOf_cons]
    exact ih.trans (List.sublist_append_right _ _)
  | case4 => exact List.Sublist.refl []

/-! ## How large a sum is -/

/-- Values of few digits each have a sum of no more digits than all of them together. -/
theorem sum_map_lt_pow {α β : Type} {R : α → β → Prop} {len : α → Nat} (val : β → Int)
    {xs : List α} {ys : List β} (hxy : List.Forall₂ R xs ys)
    (h : ∀ x y, R x y → 0 ≤ val y ∧ 10 * val y + 1 ≤ 10 ^ len x) :
    0 ≤ (ys.map val).sum ∧ 10 * (ys.map val).sum + 1 ≤ 10 ^ (xs.map len).sum := by
  induction hxy with
  | nil => exact ⟨Int.le_refl 0, by simp⟩
  | @cons x y xs ys hR _ ih =>
    obtain ⟨hnonneg, hlt⟩ := h x y hR
    obtain ⟨hsum, hsumlt⟩ := ih
    rw [List.map_cons, List.map_cons, List.sum_cons, List.sum_cons, pow_add]
    refine ⟨by omega, ?_⟩
    calc 10 * (val y + (ys.map val).sum) + 1
        ≤ (10 * val y + 1) * (10 * (ys.map val).sum + 1) := by
          nlinarith [mul_nonneg hnonneg hsum]
      _ ≤ 10 ^ len x * 10 ^ (xs.map len).sum := mul_le_mul hlt hsumlt (by omega) (by positivity)

/-- The letter of a die makes up for the digit that its highest total may be short of. -/
theorem Term.highest_lt_pow {mode : Mode} {t : Term} {d : Dice} (h : t.read mode = .ok d) :
    0 ≤ d.highest ∧ 10 * d.highest + 1 ≤ 10 ^ t.text.length := by
  obtain ⟨count, sides, hcount, hsides, rfl, -⟩ := Term.read_eq_ok_iff.1 h
  have hc : count ≤ 10 ^ (t.count.getD []).length := by
    unfold Term.readCount? at hcount
    split at hcount
    · rename_i hnone
      cases hcount
      rw [hnone]
      exact Nat.le_refl 1
    · rename_i hsome
      rw [hsome]
      exact Nat.le_of_lt (Numeral.lt_of_read? hcount)
  have hs : sides + 1 ≤ 10 ^ t.sides.length := Numeral.lt_of_read? hsides
  have hlength : t.text.length = (t.count.getD []).length + t.sides.length + 1 := by
    simp only [Term.text, List.length_append, List.length_cons]
    omega
  have hpos : 1 ≤ 10 ^ (t.count.getD []).length := Nat.one_le_pow _ _ (by decide)
  have hprod : count * sides + 1 ≤ 10 ^ (t.count.getD []).length * 10 ^ t.sides.length := by
    calc count * sides + 1
        ≤ 10 ^ (t.count.getD []).length * sides + 10 ^ (t.count.getD []).length :=
          Nat.add_le_add (Nat.mul_le_mul_right sides hc) hpos
      _ = 10 ^ (t.count.getD []).length * (sides + 1) := by ring
      _ ≤ _ := Nat.mul_le_mul_left _ hs
  have hnat : 10 * (count * sides) + 1 ≤ 10 ^ t.text.length := by
    rw [hlength, Nat.pow_succ, Nat.pow_add]
    omega
  refine ⟨Int.mul_nonneg (Int.natCast_nonneg _) (Int.natCast_nonneg _), ?_⟩
  show 10 * ((count : Int) * sides) + 1 ≤ 10 ^ t.text.length
  exact_mod_cast hnat

theorem readConstant_lt_pow {digits : List Char} {k : Int} (h : readConstant digits = .ok k) :
    0 ≤ k ∧ 10 * k + 1 ≤ 10 ^ ('+' :: digits).length := by
  unfold readConstant at h
  split at h
  · rename_i n hn
    cases h
    have hlt := Numeral.lt_of_read? hn
    have hnat : 10 * n + 1 ≤ 10 ^ ('+' :: digits).length := by
      rw [List.length_cons, Nat.pow_succ]
      omega
    exact ⟨Int.natCast_nonneg n, by exact_mod_cast hnat⟩
  · cases h

/-! ## Totals -/

namespace Formula

variable {mode : Mode} {text : List Char} {f : Formula}

theorem highest_lt_pow_length (h : read mode text = .ok f) :
    f.highest < 10 ^ text.length := by
  obtain ⟨hdice, -, hconstants⟩ := read_eq_ok_iff.1 h
  have hd := (sum_map_lt_pow Dice.highest hdice fun _ _ => Term.highest_lt_pow).2
  have hk := (sum_map_lt_pow id hconstants fun _ _ => readConstant_lt_pow).2
  have hdlen := (mode.terms_sublist (lex text)).length_le
  have hklen := (constantTerms_sublist (lex text)).length_le
  rw [List.length_flatMap, textOf_lex] at hdlen hklen
  rw [List.map_id] at hk
  have hdpow : (10 : Int) ^ _ ≤ 10 ^ text.length := pow_le_pow_right₀ (by decide) hdlen
  have hkpow : (10 : Int) ^ _ ≤ 10 ^ text.length := pow_le_pow_right₀ (by decide) hklen
  have hpos : (0 : Int) < 10 ^ text.length := by positivity
  unfold highest
  omega

theorem constants_nonneg (h : read mode text = .ok f) : ∀ k ∈ f.constants, 0 ≤ k := by
  obtain ⟨-, -, hconstants⟩ := read_eq_ok_iff.1 h
  intro k hk
  obtain ⟨digits, -, hdigits⟩ := exists_of_mem_forall₂ hconstants hk
  exact (readConstant_lt_pow hdigits).1

theorem lowest_nonneg (h : read mode text = .ok f) : 0 ≤ f.lowest := by
  have hcounts : 0 ≤ (f.dice.map Dice.count).sum :=
    List.sum_nonneg (List.forall_mem_map.2 fun d hd => by
      have := (sound_of_read h d hd).one_le_count
      omega)
  have hconstants := List.sum_nonneg (constants_nonneg h)
  unfold lowest
  omega

theorem total_lt_pow_length {bytes rest : List Byte} {total : Int} (h : read mode text = .ok f)
    (ht : (f.total mode).Gives bytes total rest) : 0 ≤ total ∧ total < 10 ^ text.length := by
  obtain ⟨hlow, hhigh⟩ := total_mem_range (sound_of_read h) ht
  have hnonneg := lowest_nonneg h
  have hlt := highest_lt_pow_length h
  omega

end Formula

theorem writable_of_evaluate {mode : Mode} {text : List Char} {bytes rest : List Byte}
    {total : Int} (h : (evaluate mode text).Gives bytes total rest)
    (short : text.length ≤ Numeral.limit) : Numeral.Writable total := by
  obtain ⟨f, hread, ht⟩ := gives_evaluate_iff.1 h
  obtain ⟨hnonneg, hlt⟩ := Formula.total_lt_pow_length hread ht
  exact Numeral.writable_of_lt hnonneg hlt short

end DiceFormula
