import DiceFormula.Proofs.Formula.Reading
import DiceFormula.Proofs.Roll.Uniformity
import DiceFormula.Roll.Dice
import Mathlib.Algebra.Order.BigOperators.Group.List
import Mathlib.Algebra.Order.Ring.Int

/-!
# The range of totals

A die shows a face from one to its sides, so dice come to no less than their
number and to no more than their number times their sides, whatever bytes are
rejected on the way. The average stays within the same bounds, so in both modes
the total of a formula that has been read lies between `Formula.lowest` and
`Formula.highest` (`Formula.total_mem_range`).
-/

namespace DiceFormula

namespace Dice

/-- The total when all dice show their last faces. -/
def highest (d : Dice) : Int := d.count * d.sides

end Dice

namespace Formula

/-- The total when all dice show ones. -/
def lowest (f : Formula) : Int := (f.dice.map Dice.count).sum + f.constants.sum

/-- The total when all dice show their last faces. -/
def highest (f : Formula) : Int := (f.dice.map Dice.highest).sum + f.constants.sum

end Formula

/-! ## Dice -/

section

variable {bytes rest : List Byte}

theorem lt_of_gives_remainder {span r : Nat} (pos : 0 < span)
    (h : (Roll.remainder span).Gives bytes r rest) : r < span := by
  induction bytes with
  | nil => cases h.1
  | cons b bytes ih =>
    by_cases hb : b.val < acceptLimit span
    · obtain ⟨rfl, -⟩ := (gives_remainder_accept hb).1 h
      exact Nat.mod_lt _ pos
    · exact ih ((gives_remainder_reject (Nat.le_of_not_lt hb)).1 h)

variable {sides : Int} (lo : 1 ≤ sides) (hi : sides ≤ byteDomain)

include lo hi

/-- A face is one more than the remainder of a byte. -/
theorem gives_face_iff {face : Int} :
    (Roll.uniform 1 sides).Gives bytes face rest ↔
      ∃ r : Nat, (Roll.remainder sides.toNat).Gives bytes r rest ∧ 1 + (r : Int) = face := by
  rw [Roll.uniform_one lo hi]
  exact Roll.gives_map

theorem face_mem_range {face : Int} (h : (Roll.uniform 1 sides).Gives bytes face rest) :
    1 ≤ face ∧ face ≤ sides := by
  obtain ⟨r, hr, rfl⟩ := (gives_face_iff lo hi).1 h
  have hlt := lt_of_gives_remainder (by omega) hr
  omega

theorem rollTimes_mem_range {n : Nat} {total : Int}
    (h : (rollTimes sides n).Gives bytes total rest) : n ≤ total ∧ total ≤ n * sides := by
  induction n generalizing bytes total with
  | zero =>
    obtain ⟨rfl, -⟩ := Roll.gives_pure.1 h
    exact ⟨Int.le_refl 0, by omega⟩
  | succ n ih =>
    obtain ⟨face, mid, hface, hmap⟩ := Roll.gives_bind.1 h
    obtain ⟨later, hlater, rfl⟩ := Roll.gives_map.1 hmap
    obtain ⟨hone, hsides⟩ := face_mem_range lo hi hface
    obtain ⟨hleast, hmost⟩ := ih hlater
    have hsplit : ((n + 1 : Nat) : Int) * sides = n * sides + sides := by
      rw [Int.natCast_add, Int.add_mul]
      omega
    omega

end

namespace Dice

variable {mode : Mode} {d : Dice}

theorem roll_mem_range {bytes rest : List Byte} {total : Int} (hs : d.Sound .simulate)
    (h : d.roll.Gives bytes total rest) : d.count ≤ total ∧ total ≤ d.highest := by
  have hcount : (d.count.toNat : Int) = d.count := by have := hs.one_le_count; omega
  have hrange := rollTimes_mem_range hs.one_le_sides (hs.sides_le rfl) h
  rw [hcount] at hrange
  exact hrange

theorem average_mem_range (hs : d.Sound mode) : d.count ≤ d.average ∧ d.average ≤ d.highest := by
  have hcount := hs.one_le_count
  have hmul : d.count * 1 ≤ d.count * d.sides :=
    Int.mul_le_mul_of_nonneg_left hs.one_le_sides (by omega)
  rw [average, highest, Int.mul_add]
  omega

end Dice

/-! ## Formulas -/

theorem sum_mem_range {ds : List Dice} {totals : List Int} {lo hi : Dice → Int}
    (h : List.Forall₂ (fun d total => lo d ≤ total ∧ total ≤ hi d) ds totals) :
    (ds.map lo).sum ≤ totals.sum ∧ totals.sum ≤ (ds.map hi).sum := by
  have hlo : List.Forall₂ (· ≤ ·) (ds.map lo) totals :=
    List.forall₂_map_left_iff.2 (h.imp fun _ _ hd => hd.1)
  have hhi : List.Forall₂ (· ≤ ·) totals (ds.map hi) :=
    List.forall₂_map_right_iff.2 (h.imp fun _ _ hd => hd.2).flip
  exact ⟨hlo.sum_le_sum, hhi.sum_le_sum⟩

/-- As many members as the counts of the dice say. -/
theorem Dice.length_flatMap {α : Type} {ds : List Dice} {g : Dice → List α}
    (h : ∀ d ∈ ds, ((g d).length : Int) = d.count) :
    ((ds.flatMap g).length : Int) = (ds.map count).sum := by
  induction ds with
  | nil => rfl
  | cons d ds ih =>
    obtain ⟨hd, hds⟩ := List.forall_mem_cons.1 h
    rw [List.flatMap_cons, List.length_append, Int.natCast_add, ih hds, hd, List.map_cons,
      List.sum_cons]

namespace Formula

variable {mode : Mode} {f : Formula}

theorem average_mem_range (hs : ∀ d ∈ f.dice, d.Sound mode) :
    f.lowest ≤ f.average ∧ f.average ≤ f.highest := by
  have hdice : List.Forall₂ (fun d total => d.count ≤ total ∧ total ≤ d.highest) f.dice
      (f.dice.map Dice.average) := by
    rw [List.forall₂_map_right_iff, List.forall₂_same]
    exact fun d hd => Dice.average_mem_range (hs d hd)
  have := sum_mem_range hdice
  unfold average lowest highest
  omega

theorem roll_mem_range {bytes rest : List Byte} {total : Int}
    (hs : ∀ d ∈ f.dice, d.Sound .simulate) (h : f.roll.Gives bytes total rest) :
    f.lowest ≤ total ∧ total ≤ f.highest := by
  obtain ⟨totals, htotals, rfl⟩ := Roll.gives_map.1 h
  have hdice :=
    Roll.forall₂_of_gives_mapM (fun d hd _ _ _ hg => Dice.roll_mem_range (hs d hd) hg) htotals
  have := sum_mem_range hdice
  unfold lowest highest
  omega

theorem total_mem_range {bytes rest : List Byte} {total : Int} (hs : ∀ d ∈ f.dice, d.Sound mode)
    (h : (f.total mode).Gives bytes total rest) : f.lowest ≤ total ∧ total ≤ f.highest := by
  cases mode with
  | average =>
    obtain ⟨rfl, -⟩ := Roll.gives_pure.1 h
    exact average_mem_range hs
  | simulate => exact roll_mem_range hs h

end Formula

end DiceFormula
