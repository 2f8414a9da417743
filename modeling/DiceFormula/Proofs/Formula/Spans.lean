import DiceFormula.Proofs.Formula.Patterns
import DiceFormula.Proofs.Text.Places

/-!
# Where dice and constants stand

What the searches for dice and for constants cover of a text. A die covers
digits, a letter and digits (`DieSpan`); a constant covers digits between a plus
sign and what is neither a digit nor the letter of a die (`ConstantSpan`). The
two searches know nothing of each other, but such spans have no character in
common (`DieSpan.apart`).
-/

namespace DiceFormula

open Pattern

/-! ## What is taken -/

section

variable {prev : Option Char} {cs : List Char} {m : Fit}

/-- `dicePattern` takes a die as its count, its letter and its sides. -/
theorem exists_of_first_dicePattern {mode : Mode} (h : mode.dicePattern.first prev cs = some m) :
    ∃ count letter sides, m.pieces = [count, [letter], sides] ∧
      mode.leastCount ≤ count.length ∧ (∀ c ∈ count, isDigit c = true) ∧ isMark letter = true ∧
      sides ≠ [] ∧ (∀ c ∈ sides, isDigit c = true) ∧
      cs = count ++ letter :: (sides ++ m.rest) := by
  obtain ⟨m₁, h₁, m', hm', rfl⟩ := mem_fits_seq (mem_fits_of_first h)
  obtain ⟨m₂, h₂, m₃, h₃, rfl⟩ := mem_fits_seq hm'
  obtain ⟨count, hpieces₁, hleast, hcount, rfl⟩ := mem_fits_greedy h₁
  obtain ⟨letter, hpieces₂, hletter, hrest₁⟩ := mem_fits_one h₂
  obtain ⟨sides, hpieces₃, hlong, hsides, hrest₂⟩ := mem_fits_greedy h₃
  refine ⟨count, letter, sides, ?_, hleast, hcount, hletter, ?_, hsides, ?_⟩
  · simp [Fit.append, hpieces₁, hpieces₂, hpieces₃]
  · rintro rfl
    exact absurd hlong (by decide)
  · rw [hrest₁, hrest₂]
    rfl

theorem mem_fits_constantEnd (h : m ∈ constantEnd.fits prev cs) :
    m = ⟨[], cs⟩ ∧ ∀ c ∈ cs.head?, isDigit c = false ∧ isMark c = false := by
  unfold constantEnd at h
  rw [fits] at h
  split at h
  · cases h
  · rename_i hne
    refine ⟨List.mem_singleton.1 h, fun c hc => ?_⟩
    obtain ⟨cs, rfl⟩ := List.head?_eq_some_iff.1 hc
    have hend : c = '+' ∨ c = '\n' := by
      by_contra hnot
      obtain ⟨hp, hn⟩ := not_or.1 hnot
      exact hne (by simp [fits, hp, hn])
    rcases hend with rfl | rfl <;> decide

/-- `constantPattern` takes digits behind a plus sign and before an end. -/
theorem exists_of_first_constantPattern (h : constantPattern.first prev cs = some m) :
    ∃ digits, m.pieces = [digits] ∧ prev = some '+' ∧ (∀ c ∈ digits, isDigit c = true) ∧
      cs = digits ++ m.rest ∧ ∀ c ∈ m.rest.head?, isDigit c = false ∧ isMark c = false := by
  have hmem := mem_fits_of_first h
  unfold constantPattern at hmem
  rw [fits_seq_behind] at hmem
  split at hmem
  · rename_i hprev
    obtain ⟨m₁, h₁, m₂, h₂, rfl⟩ := mem_fits_seq hmem
    obtain ⟨digits, hpieces, -, hdigits, rfl⟩ := mem_fits_greedy h₁
    obtain ⟨rfl, hahead⟩ := mem_fits_constantEnd h₂
    refine ⟨digits, by simp [Fit.append, hpieces], ?_, hdigits, rfl, hahead⟩
    cases prev with
    | none => cases hprev
    | some c => exact congrArg some (beq_iff_eq.1 hprev)
  · cases hmem

end

/-! ## Spans -/

/-- From `i` on a count, at `mid` a letter, and up to `j` the sides. -/
structure DieSpan (text : List Char) (i mid j : Nat) : Prop where
  count : ∀ k, i ≤ k → k < mid → text[k]?.any isDigit = true
  letter : text[mid]?.any isMark = true
  sides : ∀ k, mid < k → k < j → text[k]?.any isDigit = true

/-- Behind `p` a plus sign, then digits, and at `j` an end. -/
structure ConstantSpan (text : List Char) (p j : Nat) : Prop where
  plus : text[p]?.any (· == '+') = true
  digits : ∀ k, p < k → k < j → text[k]?.any isDigit = true
  stop : text[j]?.any isDigit = false ∧ text[j]?.any isMark = false

section

variable {text : List Char} {mode : Mode}

theorem any_isMark_of_any_isDigit {k : Nat} (h : text[k]?.any isDigit = true) :
    text[k]?.any isMark = false := by
  cases hc : text[k]? with
  | none => rfl
  | some c =>
    rw [hc] at h
    exact isMark_of_isDigit h

theorem any_of_any_plus {k : Nat} (h : text[k]?.any (· == '+') = true) :
    text[k]?.any isDigit = false ∧ text[k]?.any isMark = false := by
  cases hc : text[k]? with
  | none => exact ⟨rfl, rfl⟩
  | some c =>
    rw [hc] at h
    obtain rfl : c = '+' := beq_iff_eq.1 h
    decide

/-- A digit that a die covers has the letter of the die behind it, or before it, with nothing but
digits in between; one that a constant covers has its end or its plus sign there. -/
theorem DieSpan.apart {i mid j p e k : Nat} (die : DieSpan text i mid j)
    (constant : ConstantSpan text p e) (hk : i ≤ k ∧ k < j) : ¬ (p < k ∧ k < e) := by
  rintro ⟨hp, he⟩
  have hdigit := constant.digits k hp he
  obtain ⟨hstop, hstopMark⟩ := constant.stop
  obtain ⟨hplus, hplusMark⟩ := any_of_any_plus constant.plus
  have hletter : ∀ {l}, l = mid → text[l]?.any isMark = false → False := by
    rintro l rfl hfalse
    rw [die.letter] at hfalse
    cases hfalse
  rcases Nat.lt_trichotomy k mid with hcount | hmid | hsides
  · rcases Nat.lt_trichotomy e mid with hlt | heq | hgt
    · rw [die.count e (by omega) hlt] at hstop
      cases hstop
    · exact hletter heq hstopMark
    · exact hletter rfl (any_isMark_of_any_isDigit (constant.digits mid (by omega) hgt))
  · exact hletter hmid (any_isMark_of_any_isDigit hdigit)
  · rcases Nat.lt_trichotomy p mid with hlt | heq | hgt
    · exact hletter rfl (any_isMark_of_any_isDigit (constant.digits mid hlt (by omega)))
    · exact hletter heq hplusMark
    · rw [die.sides p hgt (by omega)] at hplus
      cases hplus

theorem any_getElem?_append {kind : Char → Bool} {w : List Char} (all : ∀ c ∈ w, kind c = true)
    (u r : List Char) {k : Nat} (lo : u.length ≤ k) (hi : k < u.length + w.length) :
    (u ++ (w ++ r))[k]?.any kind = true := by
  have hlt : k - u.length < w.length := by omega
  rw [List.getElem?_append_right lo, List.getElem?_append_left hlt,
    List.getElem?_eq_getElem hlt]
  exact all _ (List.getElem_mem hlt)

theorem dieSpan_append {count sides : List Char} {letter : Char}
    (hcount : ∀ c ∈ count, isDigit c = true) (hletter : isMark letter = true)
    (hsides : ∀ c ∈ sides, isDigit c = true) (u r : List Char) :
    DieSpan (u ++ (count ++ letter :: (sides ++ r))) u.length (u.length + count.length)
      (u.length + (count.length + 1 + sides.length)) where
  count k lo hi := any_getElem?_append hcount u _ lo hi
  letter := by
    have h := any_getElem?_append (List.forall_mem_singleton.2 hletter) (u ++ count)
      (sides ++ r) (Nat.le_refl _) (Nat.lt_succ_self _)
    rwa [List.append_assoc, List.length_append] at h
  sides k lo hi := by
    have h := any_getElem?_append hsides (u ++ count ++ [letter]) r (k := k)
      (by simp only [List.length_append, List.length_singleton]; omega)
      (by simp only [List.length_append, List.length_singleton]; omega)
    simpa using h

theorem constantSpan_append {digits r : List Char} (hdigits : ∀ c ∈ digits, isDigit c = true)
    (hr : ∀ c ∈ r.head?, isDigit c = false ∧ isMark c = false) (u : List Char) :
    ConstantSpan (u ++ '+' :: (digits ++ r)) u.length (u.length + 1 + digits.length) where
  plus := by simp
  digits k lo hi := by
    have h := any_getElem?_append hdigits (u ++ ['+']) r (k := k)
      (by simp only [List.length_append, List.length_singleton]; omega)
      (by simp only [List.length_append, List.length_singleton]; omega)
    simpa using h
  stop := by
    have hlength : (u ++ '+' :: digits).length = u.length + 1 + digits.length := by
      rw [List.length_append, List.length_cons]
      omega
    have hwhole : u ++ '+' :: (digits ++ r) = u ++ '+' :: digits ++ r := by simp
    rw [hwhole, ← hlength, List.getElem?_append_right (Nat.le_refl _), Nat.sub_self,
      ← List.head?_eq_getElem?]
    cases hc : r.head? with
    | none => exact ⟨rfl, rfl⟩
    | some c => exact hr c hc

theorem exists_dieSpan_of_takes {k : Nat} (h : mode.dicePattern.Takes text k) :
    ∃ i mid j, DieSpan text i mid j ∧ i ≤ k ∧ k < j := by
  obtain ⟨x, hx, lo, hi⟩ := h
  obtain ⟨u, v, rfl, hu, hfirst⟩ := exists_of_mem_places hx
  obtain ⟨count, letter, sides, hpieces, -, hcount, hletter, -, hsides, rfl⟩ :=
    exists_of_first_dicePattern hfirst
  have hlength : x.2.text.length = count.length + 1 + sides.length := by
    simp only [Fit.text, hpieces, List.flatten_cons, List.flatten_nil, List.append_nil,
      List.length_append, List.length_singleton]
    omega
  rw [hu] at lo hi
  rw [hlength] at hi
  exact ⟨_, _, _, dieSpan_append hcount hletter hsides u x.2.rest, lo, hi⟩

theorem exists_constantSpan_of_takes {k : Nat} (h : constantPattern.Takes text k) :
    ∃ p j, ConstantSpan text p j ∧ p < k ∧ k < j := by
  obtain ⟨x, hx, lo, hi⟩ := h
  obtain ⟨u, v, rfl, hu, hfirst⟩ := exists_of_mem_places hx
  obtain ⟨digits, hpieces, hprev, hdigits, rfl, hahead⟩ := exists_of_first_constantPattern hfirst
  obtain ⟨w, rfl⟩ := List.getLast?_eq_some_iff.1 hprev
  have hlength : x.2.text.length = digits.length := by
    simp [Fit.text, hpieces]
  rw [List.length_append, List.length_singleton] at hu
  rw [hu] at lo hi
  rw [hlength] at hi
  refine ⟨w.length, w.length + 1 + digits.length, ?_, lo, hi⟩
  rw [List.append_assoc]
  exact constantSpan_append hdigits hahead w

/-- No character is covered both by a die and by a constant. -/
theorem not_takes_both (mode : Mode) (text : List Char) (k : Nat) :
    ¬ (mode.dicePattern.Takes text k ∧ constantPattern.Takes text k) := by
  rintro ⟨hdie, hconstant⟩
  obtain ⟨i, mid, j, die, hk⟩ := exists_dieSpan_of_takes hdie
  obtain ⟨p, e, constant, hp⟩ := exists_constantSpan_of_takes hconstant
  exact die.apart constant hk hp

end

end DiceFormula
