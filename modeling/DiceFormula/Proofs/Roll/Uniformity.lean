import DiceFormula.Proofs.Roll.Outcome
import DiceFormula.Roll.Uniform
import Mathlib.Algebra.BigOperators.Fin
import Mathlib.Data.Fintype.Fin

/-!
# Uniformity

All vectors of values that draws from given ranges can yield are yielded by
equally many streams of each length. The number of these streams is `ways`
(`card_yielding`): it depends on the sizes of the ranges alone, since each
value of a range is the remainder of equally many accepted bytes and a rejected
byte changes nothing but the length.
-/

namespace DiceFormula

def rangeSize (range : Int × Int) : Nat := (range.2 - range.1 + 1).toNat

/-- A range that one byte can draw from. -/
def Drawable (range : Int × Int) : Prop := 1 ≤ rangeSize range ∧ rangeSize range ≤ byteDomain

instance (range : Int × Int) : Decidable (Drawable range) := inferInstanceAs (Decidable (_ ∧ _))

/-- A draw from each range, in order. -/
def draws (ranges : List (Int × Int)) : Roll (List Int) :=
  ranges.mapM fun range => Roll.uniform range.1 range.2

/-- The draws yield `values` and use up the stream. -/
def Yields (ranges : List (Int × Int)) (values : List Int) (bytes : List Byte) : Prop :=
  (draws ranges).Gives bytes values []

instance (ranges : List (Int × Int)) (values : List Int) :
    DecidablePred (Yields ranges values) :=
  fun bytes => inferInstanceAs (Decidable ((draws ranges).Gives bytes values []))

/-- How many streams of `n` bytes yield one vector of values from ranges of the given sizes. -/
def ways : List Nat → Nat → Nat
  | [], 0 => 1
  | [], _ + 1 => 0
  | _ :: _, 0 => 0
  | s :: sizes, n + 1 =>
    byteDomain / s * ways sizes n + (byteDomain - acceptLimit s) * ways (s :: sizes) n

/-! ## One byte -/

theorem card_accepted {s k : Nat} (h : k < s) :
    (Finset.univ.filter fun b : Byte => b.val < acceptLimit s ∧ b.val % s = k).card =
      byteDomain / s := by
  have hbound : ∀ q < byteDomain / s, q * s + k < acceptLimit s := by
    intro q hq
    have : (q + 1) * s ≤ byteDomain / s * s := Nat.mul_le_mul_right s hq
    rw [Nat.add_one_mul] at this
    unfold acceptLimit
    omega
  have hbyte : ∀ q < byteDomain / s, q * s + k < 256 := fun q hq =>
    Nat.lt_of_lt_of_le (hbound q hq) (acceptLimit_le s)
  rw [← Finset.card_range (byteDomain / s)]
  symm
  refine Finset.card_bij (fun q hq => ⟨q * s + k, hbyte q (Finset.mem_range.1 hq)⟩) ?_ ?_ ?_
  · intro q hq
    have hrem : (q * s + k) % s = k := by
      rw [Nat.mul_comm, Nat.mul_add_mod, Nat.mod_eq_of_lt h]
    simp [hbound q (Finset.mem_range.1 hq), hrem]
  · intro q _ q' _ he
    have : q * s = q' * s := by simpa using he
    exact Nat.eq_of_mul_eq_mul_right (by omega) this
  · intro b hb
    obtain ⟨-, hlt, hrem⟩ := Finset.mem_filter.1 hb
    refine ⟨b.val / s, ?_, ?_⟩
    · exact Finset.mem_range.2 ((Nat.div_lt_iff_lt_mul (by omega)).2 hlt)
    · have := Nat.div_add_mod' b.val s
      exact Fin.ext (by simp only; omega)

theorem card_rejected (s : Nat) :
    (Finset.univ.filter fun b : Byte => ¬ b.val < acceptLimit s).card =
      byteDomain - acceptLimit s := by
  have hall := Finset.card_filter_add_card_filter_not
    (s := (Finset.univ : Finset Byte)) fun b => b.val < acceptLimit s
  rw [Fin.card_filter_val_lt, Finset.card_univ, Fintype.card_fin] at hall
  have := acceptLimit_le s
  unfold byteDomain at *
  omega

/-! ## One draw -/

theorem gives_remainder_accept {s k : Nat} {b : Byte} {bytes rest : List Byte}
    (h : b.val < acceptLimit s) :
    (Roll.remainder s).Gives (b :: bytes) k rest ↔ b.val % s = k ∧ bytes = rest := by
  unfold Roll.Gives
  rw [Roll.run_remainder_accept h]
  simp

theorem gives_remainder_reject {s k : Nat} {b : Byte} {bytes rest : List Byte}
    (h : acceptLimit s ≤ b.val) :
    (Roll.remainder s).Gives (b :: bytes) k rest ↔ (Roll.remainder s).Gives bytes k rest := by
  unfold Roll.Gives
  rw [Roll.run_remainder_reject h]

theorem yields_nil {values : List Int} {bytes : List Byte} :
    Yields [] values bytes ↔ [] = values ∧ bytes = [] :=
  Roll.gives_mapM_nil

theorem yields_cons {range : Int × Int} {ranges : List (Int × Int)} {x : Int}
    {values : List Int} {bytes : List Byte} :
    Yields (range :: ranges) (x :: values) bytes ↔
      ∃ rest, (Roll.uniform range.1 range.2).Gives bytes x rest ∧ Yields ranges values rest := by
  unfold Yields draws
  rw [Roll.gives_mapM_cons]
  refine ⟨?_, ?_⟩
  · rintro ⟨_, rest, _, hx, hxs, he⟩
    obtain ⟨rfl, rfl⟩ := List.cons.inj he
    exact ⟨rest, hx, hxs⟩
  · rintro ⟨rest, hx, hxs⟩
    exact ⟨x, rest, values, hx, hxs, rfl⟩

section

variable {range : Int × Int} (drawable : Drawable range) {ranges : List (Int × Int)} {x : Int}
  {values : List Int} {bytes : List Byte}

include drawable

theorem uniform_of_drawable :
    Roll.uniform range.1 range.2 =
      (fun r : Nat => range.1 + r) <$> Roll.remainder (rangeSize range) := by
  obtain ⟨lo, hi⟩ := drawable
  unfold rangeSize at lo hi
  exact Roll.uniform_of_span (by omega) (by omega)

theorem not_yields_empty : ¬ Yields (range :: ranges) (x :: values) [] := by
  rw [yields_cons, uniform_of_drawable drawable]
  rintro ⟨_, ⟨h, -⟩, -⟩
  cases h

theorem yields_accept {b : Byte} (h : b.val < acceptLimit (rangeSize range)) :
    Yields (range :: ranges) (x :: values) (b :: bytes) ↔
      range.1 + (b.val % rangeSize range : Nat) = x ∧ Yields ranges values bytes := by
  rw [yields_cons, uniform_of_drawable drawable]
  refine ⟨?_, ?_⟩
  · rintro ⟨rest, hdraw, hxs⟩
    obtain ⟨k, hk, hx⟩ := Roll.gives_map.1 hdraw
    obtain ⟨rfl, rfl⟩ := (gives_remainder_accept h).1 hk
    exact ⟨hx, hxs⟩
  · rintro ⟨hx, hxs⟩
    exact ⟨bytes, Roll.gives_map.2 ⟨_, (gives_remainder_accept h).2 ⟨rfl, rfl⟩, hx⟩, hxs⟩

/-- A rejected byte is as if it had not been there. -/
theorem yields_reject {b : Byte} (h : acceptLimit (rangeSize range) ≤ b.val) :
    Yields (range :: ranges) (x :: values) (b :: bytes) ↔
      Yields (range :: ranges) (x :: values) bytes := by
  rw [yields_cons, yields_cons]
  refine exists_congr fun rest => and_congr_left fun _ => ?_
  rw [uniform_of_drawable drawable, Roll.gives_map, Roll.gives_map]
  exact exists_congr fun k => and_congr_left fun _ => gives_remainder_reject h

end

/-! ## Streams -/

/-- A stream of `n + 1` bytes is a byte and a stream of `n` bytes. -/
theorem card_streams_succ (P : List Byte → Prop) [DecidablePred P] (n : Nat) :
    (Finset.univ.filter fun s : Fin (n + 1) → Byte => P (List.ofFn s)).card =
      ∑ b : Byte, (Finset.univ.filter fun s : Fin n → Byte => P (b :: List.ofFn s)).card := by
  simp only [Finset.card_filter]
  rw [← (Fin.consEquiv fun _ => Byte).sum_comp, Fintype.sum_prod_type]
  simp [Fin.consEquiv]

/-- The streams of `n` bytes that yield `values`. -/
def yielding (n : Nat) (ranges : List (Int × Int)) (values : List Int) : Finset (Fin n → Byte) :=
  Finset.univ.filter fun s => Yields ranges values (List.ofFn s)

/-- A first byte is accepted with the remainder that gives the first value, or rejected. -/
theorem card_yielding_succ {range : Int × Int} (drawable : Drawable range)
    {x : Int} (fits : range.1 ≤ x ∧ x ≤ range.2) (ranges : List (Int × Int))
    (values : List Int) (n : Nat) :
    (yielding (n + 1) (range :: ranges) (x :: values)).card =
      byteDomain / rangeSize range * (yielding n ranges values).card +
        (byteDomain - acceptLimit (rangeSize range)) *
          (yielding n (range :: ranges) (x :: values)).card := by
  have hk : (x - range.1).toNat < rangeSize range := by unfold rangeSize; omega
  have hbyte : ∀ b : Byte,
      (Finset.univ.filter fun s : Fin n → Byte =>
        Yields (range :: ranges) (x :: values) (b :: List.ofFn s)).card =
      (if b.val < acceptLimit (rangeSize range) ∧ b.val % rangeSize range = (x - range.1).toNat then
        (yielding n ranges values).card else 0) +
      if ¬ b.val < acceptLimit (rangeSize range) then
        (yielding n (range :: ranges) (x :: values)).card else 0 := by
    intro b
    by_cases hb : b.val < acceptLimit (rangeSize range)
    · have hx : range.1 + (b.val % rangeSize range : Nat) = x ↔
          b.val % rangeSize range = (x - range.1).toNat := by omega
      simp only [yields_accept drawable hb, hx, hb, true_and, not_true_eq_false, if_false,
        Nat.add_zero]
      by_cases hr : b.val % rangeSize range = (x - range.1).toNat <;> simp [hr, yielding]
    · simp [yields_reject drawable (Nat.le_of_not_lt hb), hb, yielding]
  calc (yielding (n + 1) (range :: ranges) (x :: values)).card
      = ∑ b : Byte, (Finset.univ.filter fun s : Fin n → Byte =>
          Yields (range :: ranges) (x :: values) (b :: List.ofFn s)).card := card_streams_succ _ n
    _ = _ := by
      rw [Finset.sum_congr rfl fun b _ => hbyte b, Finset.sum_add_distrib, ← Finset.sum_filter,
        ← Finset.sum_filter, Finset.sum_const, Finset.sum_const, card_accepted hk, card_rejected]
      rfl

/-- Each value lies in its range. -/
def Fits (ranges : List (Int × Int)) (values : List Int) : Prop :=
  List.Forall₂ (fun range x => range.1 ≤ x ∧ x ≤ range.2) ranges values

/-- The values themselves do not enter into the number of their streams. -/
theorem card_yielding {ranges : List (Int × Int)} (drawable : ∀ range ∈ ranges, Drawable range)
    {values : List Int} (fits : Fits ranges values) (n : Nat) :
    (yielding n ranges values).card = ways (ranges.map rangeSize) n := by
  induction n generalizing ranges values with
  | zero =>
    cases fits with
    | nil => simp [yielding, yields_nil, ways]
    | cons hx hfits =>
      have hd := (List.forall_mem_cons.1 drawable).1
      simp [yielding, not_yields_empty hd, ways]
  | succ n ih =>
    cases fits with
    | nil => simp [yielding, yields_nil, ways]
    | cons hx hfits =>
      obtain ⟨hd, hds⟩ := List.forall_mem_cons.1 drawable
      rw [card_yielding_succ hd hx, ih hds hfits, ih drawable (.cons hx hfits)]
      rfl

theorem ways_length_pos {sizes : List Nat} (h : ∀ s ∈ sizes, 1 ≤ s ∧ s ≤ byteDomain) :
    0 < ways sizes sizes.length := by
  induction sizes with
  | nil => exact Nat.one_pos
  | cons s sizes ih =>
    obtain ⟨⟨hpos, hle⟩, hsizes⟩ := List.forall_mem_cons.1 h
    have hquot : 0 < byteDomain / s := Nat.div_pos hle hpos
    exact Nat.add_pos_left (Nat.mul_pos hquot (ih hsizes)) _

/-- `v` and `w` are yielded by equally many streams of `n` bytes, and by some stream of as many
bytes as there are draws. -/
theorem card_yielding_eq {ranges : List (Int × Int)}
    (drawable : ∀ range ∈ ranges, Drawable range) {v w : List Int} (hv : Fits ranges v)
    (hw : Fits ranges w) (n : Nat) :
    (yielding n ranges v).card = (yielding n ranges w).card ∧
      0 < (yielding ranges.length ranges v).card := by
  refine ⟨by rw [card_yielding drawable hv, card_yielding drawable hw], ?_⟩
  have hpos : 0 < ways (ranges.map rangeSize) (ranges.map rangeSize).length :=
    ways_length_pos (List.forall_mem_map.2 drawable)
  rwa [List.length_map, ← card_yielding drawable hv] at hpos

theorem card_yielding_eq_die_and_coin :
    (∀ range ∈ [((1 : Int), (6 : Int)), (-1, 0)], Drawable range) ∧
      Fits [(1, 6), (-1, 0)] [3, 0] ∧ Fits [(1, 6), (-1, 0)] [6, -1] ∧
      (yielding 4 [(1, 6), (-1, 0)] [3, 0]).card = (yielding 4 [(1, 6), (-1, 0)] [6, -1]).card ∧
      0 < (yielding 2 [(1, 6), (-1, 0)] [3, 0]).card := by
  have drawable : ∀ range ∈ [((1 : Int), (6 : Int)), (-1, 0)], Drawable range := by decide
  have hv : Fits [(1, 6), (-1, 0)] [3, 0] := .cons (by decide) (.cons (by decide) .nil)
  have hw : Fits [(1, 6), (-1, 0)] [6, -1] := .cons (by decide) (.cons (by decide) .nil)
  exact ⟨drawable, hv, hw, card_yielding_eq drawable hv hw 4⟩

end DiceFormula
