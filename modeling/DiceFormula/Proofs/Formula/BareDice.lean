import DiceFormula.Proofs.Formula.Chains

/-!
# Bare dice in the two modes

Simulate mode takes every counted die that average mode takes, in the same
order, but it does not pass over the bare dice whole: in each chain it goes on
to take their sides two by two, as the count and the sides of another die
(`pairs_eq`). So the modes agree on counted dice exactly where no chain has two
bare dice (`countedTerms_eq_filter_iff`).
-/

namespace DiceFormula

def Term.isCounted (t : Term) : Bool := t.count.isSome

namespace DigitRun

/-- The runs of a chain that are the sides of bare dice. -/
def bareSides : List DigitRun → List DigitRun
  | [] => []
  | first :: later => if first.isMarked then first :: later else later.drop 1

section

variable {first : DigitRun} {later : List DigitRun}

theorem diceOf_of_isMarked (h : first.isMarked = true) (later : List DigitRun) :
    diceOf (first :: later) = (first :: later).map bare := by
  cases later <;> simp [diceOf, h]

theorem diceOf_pair (h : first.isMarked = false) (second : DigitRun) (later : List DigitRun) :
    diceOf (first :: second :: later) = pair first second :: later.map bare := by
  simp [diceOf, h]

theorem bareSides_of_isMarked (h : first.isMarked = true) (later : List DigitRun) :
    bareSides (first :: later) = first :: later :=
  if_pos h

theorem bareSides_of_not_isMarked (h : first.isMarked = false) (later : List DigitRun) :
    bareSides (first :: later) = later.drop 1 :=
  if_neg (by rw [h]; decide)

/-- A run alone is a die only if a die letter leads it. -/
theorem diceOf_single (h : first.isMarked = false) : diceOf [first] = [] := by
  simp [diceOf, h]

end

theorem filter_map_bare (rs : List DigitRun) : (rs.map bare).filter Term.isCounted = [] := by
  rw [List.filter_map, List.map_eq_nil_iff, List.filter_eq_nil_iff]
  intro r _
  exact Bool.false_ne_true

theorem filter_not_map_bare (rs : List DigitRun) :
    (rs.map bare).filter (fun t => !t.isCounted) = rs.map bare := by
  rw [List.filter_eq_self]
  intro t ht
  obtain ⟨r, -, rfl⟩ := List.mem_map.1 ht
  rfl

theorem filter_not_diceOf (chain : List DigitRun) :
    (diceOf chain).filter (fun t => !t.isCounted) = (bareSides chain).map bare := by
  rcases chain with _ | ⟨first, later⟩
  · rfl
  · cases hm : first.isMarked with
    | true => rw [diceOf_of_isMarked hm, bareSides_of_isMarked hm, filter_not_map_bare]
    | false =>
      rw [bareSides_of_not_isMarked hm]
      cases later with
      | nil =>
        rw [diceOf_single hm]
        rfl
      | cons second later =>
        rw [diceOf_pair hm, List.filter_cons_of_neg Bool.false_ne_true, filter_not_map_bare]
        rfl

/-- What simulate mode makes of a `chain`: its counted die, then its `bareSides` two by two. -/
theorem pairs_eq (chain : List DigitRun) :
    pairs chain = (diceOf chain).filter Term.isCounted ++ pairs (bareSides chain) := by
  rcases chain with _ | ⟨first, later⟩
  · rfl
  · cases hm : first.isMarked with
    | true =>
      rw [diceOf_of_isMarked hm, bareSides_of_isMarked hm, filter_map_bare, List.nil_append]
    | false =>
      rw [bareSides_of_not_isMarked hm]
      cases later with
      | nil =>
        rw [diceOf_single hm]
        rfl
      | cons second later =>
        rw [diceOf_pair hm, List.filter_cons_of_pos rfl, filter_map_bare]
        rfl

theorem pairs_eq_nil_iff {rs : List DigitRun} : pairs rs = [] ↔ rs.length ≤ 1 := by
  rcases rs with _ | ⟨count, _ | ⟨sides, rs⟩⟩
  · exact ⟨fun _ => Nat.zero_le 1, fun _ => rfl⟩
  · exact ⟨fun _ => Nat.le_refl 1, fun _ => rfl⟩
  · refine ⟨fun h => (by cases h), fun h => ?_⟩
    simp only [List.length_cons] at h
    omega

end DigitRun

open DigitRun

section

variable {α β : Type} (f g : α → List β)

theorem flatMap_sublist_flatMap_append (xs : List α) :
    (xs.flatMap f).Sublist (xs.flatMap fun x => f x ++ g x) := by
  induction xs with
  | nil => exact List.Sublist.refl []
  | cons x xs ih =>
    rw [List.flatMap_cons, List.flatMap_cons]
    exact (List.sublist_append_left (f x) (g x)).append ih

/-- `g` adds nothing only where it adds nothing to any part. -/
theorem flatMap_append_eq_iff (xs : List α) :
    (xs.flatMap fun x => f x ++ g x) = xs.flatMap f ↔ ∀ x ∈ xs, g x = [] := by
  induction xs with
  | nil => simp
  | cons x xs ih =>
    rw [List.flatMap_cons, List.flatMap_cons, List.append_assoc, List.append_cancel_left_eq,
      List.forall_mem_cons, ← ih]
    refine ⟨fun h => ?_, ?_⟩
    · -- the parts that follow are no shorter with what is added, so nothing is added here
      have hle := (flatMap_sublist_flatMap_append f g xs).length_le
      have hlen := congrArg List.length h
      rw [List.length_append] at hlen
      have hnil : g x = [] := List.eq_nil_of_length_eq_zero (by omega)
      rw [hnil, List.nil_append] at h
      exact ⟨hnil, h⟩
    · rintro ⟨hnil, h⟩
      rw [hnil, h, List.nil_append]

end

theorem countedTerms_lex (text : List Char) :
    countedTerms (lex text) =
      (chains text).flatMap fun chain =>
        (diceOf chain).filter Term.isCounted ++ pairs (bareSides chain) := by
  have h : countedTerms (lex text) = (chains text).flatMap pairs := Mode.terms_lex .simulate text
  rw [h]
  exact List.flatMap_congr fun chain _ => pairs_eq chain

theorem filter_diceTerms_lex (p : Term → Bool) (text : List Char) :
    (diceTerms (lex text)).filter p =
      (chains text).flatMap fun chain => (diceOf chain).filter p := by
  have h : diceTerms (lex text) = (chains text).flatMap diceOf := Mode.terms_lex .average text
  rw [h, List.filter_flatMap]

/-- Simulate mode takes the counted dice of average mode, and the `bareSides` of each chain two by
two. So the modes differ just where some chain has two bare dice. -/
theorem countedTerms_eq_filter_iff (text : List Char) :
    ((diceTerms (lex text)).filter Term.isCounted).Sublist (countedTerms (lex text)) ∧
      countedTerms (lex text) =
        ((chains text).flatMap fun chain =>
          (diceOf chain).filter Term.isCounted ++ pairs (bareSides chain)) ∧
      (diceTerms (lex text)).filter (fun t => !t.isCounted) =
        ((chains text).flatMap fun chain => (bareSides chain).map bare) ∧
      (countedTerms (lex text) = (diceTerms (lex text)).filter Term.isCounted ↔
        ∀ chain ∈ chains text, (bareSides chain).length ≤ 1) := by
  have hcounted := countedTerms_lex text
  have hfilter := filter_diceTerms_lex Term.isCounted text
  refine ⟨?_, hcounted, ?_, ?_⟩
  · rw [hcounted, hfilter]
    exact flatMap_sublist_flatMap_append _ _ _
  · rw [filter_diceTerms_lex]
    exact List.flatMap_congr fun chain _ => filter_not_diceOf chain
  · rw [hcounted, hfilter, flatMap_append_eq_iff]
    exact forall₂_congr fun chain _ => pairs_eq_nil_iff

/-- Two bare dice, of which simulate mode makes one die that is not written. -/
theorem countedTerms_two_bare_dice :
    let text := ['d', '6', 'd', '8']
    (diceTerms (lex text)).map Term.isCounted = [false, false] ∧
      countedTerms (lex text) = [⟨some ['6'], 'd', ['8']⟩] ∧
      countedTerms (lex text) ≠ (diceTerms (lex text)).filter Term.isCounted := by
  decide +kernel

end DiceFormula
